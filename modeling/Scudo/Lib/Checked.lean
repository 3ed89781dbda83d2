import Mathlib.Data.List.Basic

/-!
Runs that may fail, and the rules for showing that one does not: a run that ends gives a result for
which a postcondition holds. A loop is bounded by a number of iterations, and ends where a measure
below that number becomes smaller with every iteration.
-/

namespace Scudo.Lib.Checked

variable {ε α β σ : Type}

/-- The run does not fail, and the postcondition holds for its result. -/
def Ends (run : Except ε α) (post : α → Prop) : Prop := ∃ result, run = .ok result ∧ post result

/-- At most `fuel` iterations; the error is what remains of a loop that needs more. -/
def loop (exhausted : ε) (cond : σ → Bool) (body : σ → Except ε σ) : Nat → σ → Except ε σ
  | 0, _ => .error exhausted
  | fuel + 1, s => if cond s then body s >>= loop exhausted cond body fuel else .ok s

section Loop

variable {exhausted : ε} {cond : σ → Bool} {body : σ → Except ε σ} {s : σ}

theorem loop_stop (done : cond s = false) (fuel : Nat) :
    loop exhausted cond body (fuel + 1) s = .ok s :=
  if_neg (Bool.eq_false_iff.mp done)

theorem loop_go (more : cond s = true) (fuel : Nat) :
    loop exhausted cond body (fuel + 1) s = body s >>= loop exhausted cond body fuel := if_pos more

end Loop

theorem ok_bind (a : α) (next : α → Except ε β) : (Except.ok a >>= next) = next a := rfl

namespace Ends

variable {post : α → Prop} {run : Except ε α}

theorem ok {result : α} (holds : post result) : Ends (.ok result : Except ε α) post :=
  ⟨result, rfl, holds⟩

theorem pure {result : α} (holds : post result) : Ends (Pure.pure result : Except ε α) post :=
  ⟨result, rfl, holds⟩

theorem of_eq {result : α} (eq : run = .ok result) (holds : post result) : Ends run post :=
  ⟨result, eq, holds⟩

/-- What holds for a result where there is one. -/
theorem none {good : α → Prop} :
    Ends (Pure.pure (none : Option α) : Except ε (Option α)) fun found => ∀ a ∈ found, good a :=
  pure fun _ member => absurd member (Option.not_mem_none _)

theorem some {good : α → Prop} {a : α} (holds : good a) :
    Ends (Pure.pure (some a) : Except ε (Option α)) fun found => ∀ a ∈ found, good a :=
  pure fun _ member => Option.mem_some.mp member ▸ holds

theorem mono {weaker : α → Prop} (ends : Ends run post) (le : ∀ result, post result → weaker result) :
    Ends run weaker := by
  obtain ⟨result, eq, holds⟩ := ends
  exact ⟨result, eq, le result holds⟩

theorem bind {next : α → Except ε β} {final : β → Prop} (ends : Ends run post)
    (then_ : ∀ result, post result → Ends (next result) final) : Ends (run >>= next) final := by
  obtain ⟨result, rfl, holds⟩ := ends
  exact then_ result holds

theorem ite {cond : Prop} [Decidable cond] {other : Except ε α} (yes : cond → Ends run post)
    (no : ¬ cond → Ends other post) : Ends (if cond then run else other) post := by
  split_ifs with holds
  · exact yes holds
  · exact no holds

/-- What every element keeps holds after the list. -/
theorem foldlM {body : σ → α → Except ε σ} {inv : σ → Prop} {list : List α} {s : σ} (start : inv s)
    (step : ∀ s, inv s → ∀ a ∈ list, Ends (body s a) inv) : Ends (list.foldlM body s) inv := by
  induction list generalizing s with
  | nil => exact Ends.pure start
  | cons first rest ih =>
    rw [List.foldlM_cons]
    apply (step s start first List.mem_cons_self).bind
    intro next kept
    exact ih kept fun s holds a member => step s holds a (List.mem_cons_of_mem _ member)

theorem anyM {test : α → Except ε Bool} {list : List α}
    (step : ∀ a ∈ list, Ends (test a) fun _ => True) : Ends (list.anyM test) fun _ => True := by
  induction list with
  | nil => exact Ends.pure trivial
  | cons first rest ih =>
    apply (step first List.mem_cons_self).bind
    intro found _
    cases found with
    | true => exact Ends.pure trivial
    | false => exact ih fun a member => step a (List.mem_cons_of_mem _ member)

/-- A loop with an invariant and a measure that decreases. -/
theorem loop {exhausted : ε} {cond : σ → Bool} {body : σ → Except ε σ} (inv : σ → Prop)
    (measure : σ → Nat)
    (step : ∀ s, inv s → cond s = true → Ends (body s) fun next =>
      inv next ∧ measure next < measure s)
    {fuel : Nat} {s : σ} (start : inv s) (enough : measure s < fuel) :
    Ends (Checked.loop exhausted cond body fuel s) fun last => inv last ∧ cond last = false := by
  induction fuel generalizing s with
  | zero => exact absurd enough (Nat.not_lt_zero _)
  | succ fuel ih =>
    unfold Checked.loop
    by_cases more : cond s = true
    · rw [if_pos more]
      apply (step s start more).bind
      intro next kept
      exact ih kept.1 (by omega)
    · rw [if_neg more]
      exact Ends.ok ⟨start, Bool.eq_false_iff.mpr more⟩

end Ends

/-- The postcondition holds for the result, where there is one. -/
structure Gives (run : Except ε α) (post : α → Prop) : Prop where
  result : ∀ result, run = .ok result → post result

namespace Gives

variable {post : α → Prop} {run : Except ε α}

theorem any : Gives run fun _ => True := ⟨fun _ _ => trivial⟩

theorem pure {result : α} (holds : post result) : Gives (Pure.pure result : Except ε α) post := by
  constructor
  rintro _ ⟨⟩
  exact holds

theorem bind {next : α → Except ε β} {final : β → Prop} (gives : Gives run post)
    (then_ : ∀ result, post result → Gives (next result) final) : Gives (run >>= next) final := by
  constructor
  intro result eq
  cases ran : run with
  | error e =>
    rw [ran] at eq
    cases eq
  | ok first =>
    rw [ran] at eq
    exact (then_ first (gives.result first ran)).result result eq

/-- Whatever the first run gives. -/
theorem skip {next : α → Except ε β} {final : β → Prop} (then_ : ∀ result, Gives (next result) final) :
    Gives (run >>= next) final := any.bind fun result _ => then_ result

theorem mono {weaker : α → Prop} (gives : Gives run post) (le : ∀ result, post result → weaker result) :
    Gives run weaker := ⟨fun result eq => le result (gives.result result eq)⟩

theorem ite {cond : Prop} [Decidable cond] {other : Except ε α} (yes : cond → Gives run post)
    (no : ¬ cond → Gives other post) : Gives (if cond then run else other) post := by
  split_ifs with holds
  · exact yes holds
  · exact no holds

theorem loop {exhausted : ε} {cond : σ → Bool} {body : σ → Except ε σ} (inv : σ → Prop)
    (step : ∀ s, inv s → Gives (body s) inv) {fuel : Nat} {s : σ} (start : inv s) :
    Gives (Checked.loop exhausted cond body fuel s) inv := by
  induction fuel generalizing s with
  | zero =>
    constructor
    rintro _ ⟨⟩
  | succ fuel ih =>
    unfold Checked.loop
    exact ite (fun _ => (step s start).bind fun next kept => ih kept) fun _ => pure start

end Gives

/-- A run that ends gives what holds of every result of it. -/
theorem Ends.gives {run : Except ε α} {post other : α → Prop} (ends : Ends run post)
    (gives : Gives run other) : Ends run fun result => post result ∧ other result := by
  obtain ⟨result, eq, holds⟩ := ends
  exact ⟨result, eq, holds, gives.result result eq⟩

end Scudo.Lib.Checked
