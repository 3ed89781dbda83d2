import Mathlib.Data.List.Basic
import Mathlib.Data.List.TakeWhile
import Mathlib.Tactic.Common

/-!
Finite runs of consecutive natural numbers, the number of runs of a list that hold a
given point, and coalescing insertion into a sorted list of runs.
-/

namespace Scudo.Lib

/-- The points `start, …, start + len - 1`. -/
structure Span where
  start : Nat
  len : Nat
  deriving DecidableEq, Repr

namespace Span

def stop (s : Span) : Nat := s.start + s.len

def has (s : Span) (p : Nat) : Bool := decide (s.start ≤ p ∧ p < s.stop)

/-- The two spans share no point. -/
def Apart (a b : Span) : Prop := a.stop ≤ b.start ∨ b.stop ≤ a.start

/-- `a` lies before `b` with at least one point between them. -/
def Gap (a b : Span) : Prop := a.stop < b.start

theorem Apart.symm {a b : Span} (apart : Apart a b) : Apart b a := Or.symm apart

@[simp] theorem has_iff (s : Span) (p : Nat) : s.has p = true ↔ s.start ≤ p ∧ p < s.stop := by
  simp [has]

theorem apart_iff {a b : Span} (nonemptyA : 0 < a.len) (nonemptyB : 0 < b.len) :
    Apart a b ↔ ∀ p, ¬(a.has p = true ∧ b.has p = true) := by
  simp only [has_iff, Apart, stop]
  constructor
  · intro apart p inside
    omega
  · intro disjoint
    have left := disjoint a.start
    have right := disjoint b.start
    omega

/-- Adjacent spans joined into one. -/
def join (a b : Span) : Span := ⟨a.start, a.len + b.len⟩

@[simp] theorem join_start (a b : Span) : (join a b).start = a.start := rfl

@[simp] theorem join_len (a b : Span) : (join a b).len = a.len + b.len := rfl

theorem join_stop {a b : Span} (adjacent : a.stop = b.start) : (join a b).stop = b.stop := by
  simp only [stop, join] at *
  omega

theorem join_has {a b : Span} (adjacent : a.stop = b.start) (p : Nat) :
    (join a b).has p = (a.has p || b.has p) := by
  rw [Bool.eq_iff_iff]
  simp only [stop, join, has_iff, Bool.or_eq_true] at *
  omega

end Span

/-- How many spans of the list hold `p`. -/
def load (spans : List Span) (p : Nat) : Nat := spans.countP (fun s => s.has p)

@[simp] theorem load_nil (p : Nat) : load [] p = 0 := rfl

@[simp] theorem load_cons (s : Span) (spans : List Span) (p : Nat) :
    load (s :: spans) p = load spans p + if s.has p then 1 else 0 := by
  simp [load, List.countP_cons]

@[simp] theorem load_append (first second : List Span) (p : Nat) :
    load (first ++ second) p = load first p + load second p := by
  simp [load]

theorem load_perm {first second : List Span} (perm : first.Perm second) (p : Nat) :
    load first p = load second p := perm.countP_eq _

theorem load_pos {spans : List Span} {s : Span} {p : Nat} (member : s ∈ spans)
    (inside : s.has p = true) : 0 < load spans p :=
  List.countP_pos_iff.mpr ⟨s, member, inside⟩

theorem exists_of_load_pos {spans : List Span} {p : Nat} (positive : 0 < load spans p) :
    ∃ s ∈ spans, s.has p = true := List.countP_pos_iff.mp positive

theorem load_join {a b : Span} (adjacent : a.stop = b.start) (spans : List Span) (p : Nat) :
    load (a.join b :: spans) p = load (a :: b :: spans) p := by
  have excluded : ¬(a.has p = true ∧ b.has p = true) := by
    simp only [Span.has_iff]
    omega
  simp only [load_cons, Span.join_has adjacent]
  cases left : a.has p <;> cases right : b.has p <;> simp_all

/-- A list of nonempty spans that loads no point twice is pairwise apart. -/
theorem pairwise_apart_of_load {spans : List Span} (nonempty : ∀ s ∈ spans, 0 < s.len)
    (single : ∀ p, load spans p ≤ 1) : spans.Pairwise Span.Apart := by
  induction spans with
  | nil => exact List.Pairwise.nil
  | cons s spans ih =>
    refine List.Pairwise.cons ?_ (ih (fun t member => nonempty t (List.mem_cons_of_mem _ member))
      (fun p => ?_))
    · intro t member
      rw [Span.apart_iff (nonempty s List.mem_cons_self) (nonempty t (List.mem_cons_of_mem _ member))]
      intro p inside
      have once := single p
      have other := load_pos member inside.2
      simp only [load_cons, inside.1, if_true] at once
      omega
    · have once := single p
      simp only [load_cons] at once
      omega

/-- A point held by two parts of a list is loaded twice. -/
theorem apart_of_load {first second : List Span} {a b : Span}
    (single : ∀ p, load (first ++ second) p ≤ 1) (memberA : a ∈ first) (memberB : b ∈ second)
    (nonemptyA : 0 < a.len) (nonemptyB : 0 < b.len) : a.Apart b := by
  rw [Span.apart_iff nonemptyA nonemptyB]
  intro p inside
  have once := single p
  have left := load_pos memberA inside.1
  have right := load_pos memberB inside.2
  rw [load_append] at once
  omega

/-- The spans of a sorted list that start at or before `point`, and the others. -/
def upTo (point : Nat) (spans : List Span) : List Span :=
  spans.takeWhile (fun s => decide (s.start ≤ point))

def beyond (point : Nat) (spans : List Span) : List Span :=
  spans.dropWhile (fun s => decide (s.start ≤ point))

theorem upTo_append_beyond (point : Nat) (spans : List Span) :
    upTo point spans ++ beyond point spans = spans := List.takeWhile_append_dropWhile

@[simp] theorem upTo_nil (point : Nat) : upTo point [] = [] := rfl

@[simp] theorem beyond_nil (point : Nat) : beyond point [] = [] := rfl

theorem upTo_cons_of_le {point : Nat} {s : Span} (le : s.start ≤ point) (spans : List Span) :
    upTo point (s :: spans) = s :: upTo point spans := by simp [upTo, le]

theorem upTo_cons_of_lt {point : Nat} {s : Span} (lt : point < s.start) (spans : List Span) :
    upTo point (s :: spans) = [] := by simp [upTo, lt]

theorem beyond_cons_of_le {point : Nat} {s : Span} (le : s.start ≤ point) (spans : List Span) :
    beyond point (s :: spans) = beyond point spans := by simp [beyond, le]

theorem beyond_cons_of_lt {point : Nat} {s : Span} (lt : point < s.start) (spans : List Span) :
    beyond point (s :: spans) = s :: spans := by simp [beyond, lt]

theorem start_le_of_upTo {point : Nat} {spans : List Span} {s : Span}
    (member : s ∈ upTo point spans) : s.start ≤ point := by
  simpa using List.mem_takeWhile_imp member

theorem lt_start_of_beyond {point : Nat} {spans : List Span} (sorted : spans.Pairwise Span.Gap)
    {s : Span} (member : s ∈ beyond point spans) : point < s.start := by
  have tailSorted : (beyond point spans).Pairwise Span.Gap :=
    sorted.sublist (List.dropWhile_sublist _)
  cases shape : beyond point spans with
  | nil => simp [shape] at member
  | cons first rest =>
    have firstLater : point < first.start := by
      have fails := List.head_dropWhile_not (fun s : Span => decide (s.start ≤ point)) (l := spans)
        (by simpa [beyond] using (show beyond point spans ≠ [] by simp [shape]))
      have isFirst : (List.dropWhile (fun s : Span => decide (s.start ≤ point)) spans).head
          (by simpa [beyond] using (show beyond point spans ≠ [] by simp [shape])) = first := by
        simp only [beyond] at shape
        simp [shape]
      rw [isFirst] at fails
      simpa using fails
    rw [shape] at member tailSorted
    rcases List.mem_cons.mp member with same | later
    · exact same ▸ firstLater
    · have gap := List.rel_of_pairwise_cons tailSorted later
      unfold Span.Gap Span.stop at gap
      omega

/-- Put `x` in front of a sorted list, joined with the first span when they touch. -/
def joinNext (x : Span) : List Span → List Span
  | [] => [x]
  | y :: rest => if x.stop = y.start then x.join y :: rest else x :: y :: rest

/-- Append two sorted lists, joining at the seam when the spans there touch. -/
def joinPrev (left right : List Span) : List Span :=
  match left.getLast?, right with
  | some p, x :: rest =>
      if p.stop = x.start then left.dropLast ++ p.join x :: rest else left ++ x :: rest
  | _, _ => left ++ right

/-- Insert `x` at its place in a sorted list and join it with both neighbours. -/
def give (x : Span) (spans : List Span) : List Span :=
  joinPrev (upTo x.start spans) (joinNext x (beyond x.start spans))

theorem joinNext_cases (x : Span) (spans : List Span) :
    (joinNext x spans = x :: spans ∧ ∀ y, spans.head? = some y → x.stop ≠ y.start) ∨
      ∃ y rest, spans = y :: rest ∧ x.stop = y.start ∧ joinNext x spans = x.join y :: rest := by
  cases spans with
  | nil => exact Or.inl ⟨rfl, by simp⟩
  | cons y rest =>
    by_cases adjacent : x.stop = y.start
    · exact Or.inr ⟨y, rest, rfl, adjacent, if_pos adjacent⟩
    · exact Or.inl ⟨if_neg adjacent, by simpa using adjacent⟩

/-- The first span after `joinNext` starts where the new one does. -/
theorem joinNext_shape (x : Span) (spans : List Span) :
    ∃ y rest, joinNext x spans = y :: rest ∧ y.start = x.start := by
  rcases joinNext_cases x spans with ⟨same, _⟩ | ⟨y, rest, _, _, joined⟩
  · exact ⟨x, spans, same, rfl⟩
  · exact ⟨x.join y, rest, joined, rfl⟩

theorem joinPrev_cases (left right : List Span) :
    (joinPrev left right = left ++ right ∧
      ∀ p x, left.getLast? = some p → right.head? = some x → p.stop ≠ x.start) ∨
      ∃ front p x rest, left = front ++ [p] ∧ right = x :: rest ∧ p.stop = x.start ∧
        joinPrev left right = front ++ p.join x :: rest := by
  rcases List.eq_nil_or_concat' left with rfl | ⟨front, p, rfl⟩
  · exact Or.inl ⟨by cases right <;> rfl, by simp⟩
  · cases right with
    | nil => exact Or.inl ⟨by simp [joinPrev], by simp⟩
    | cons x rest =>
      have equation : joinPrev (front ++ [p]) (x :: rest) =
          if p.stop = x.start then front ++ p.join x :: rest else front ++ [p] ++ x :: rest := by
        simp [joinPrev]
      by_cases adjacent : p.stop = x.start
      · exact Or.inr ⟨front, p, x, rest, rfl, rfl, adjacent, by rw [equation, if_pos adjacent]⟩
      · exact Or.inl ⟨by rw [equation, if_neg adjacent], by simpa using adjacent⟩

theorem load_joinNext (x : Span) (spans : List Span) (p : Nat) :
    load (joinNext x spans) p = load (x :: spans) p := by
  rcases joinNext_cases x spans with ⟨same, _⟩ | ⟨y, rest, rfl, adjacent, joined⟩
  · rw [same]
  · rw [joined, load_join adjacent]

theorem load_joinPrev (left right : List Span) (p : Nat) :
    load (joinPrev left right) p = load (left ++ right) p := by
  rcases joinPrev_cases left right with ⟨same, _⟩ | ⟨front, q, x, rest, rfl, rfl, adjacent, joined⟩
  · rw [same]
  · rw [joined, load_append, load_join adjacent]
    simp only [load_append, load_cons, load_nil]
    omega

/-- Insertion with coalescing adds exactly the points of `x`. -/
theorem load_give (x : Span) (spans : List Span) (p : Nat) :
    load (give x spans) p = load (x :: spans) p := by
  have split := congrArg (load · p) (upTo_append_beyond x.start spans)
  simp only [load_append] at split
  rw [give, load_joinPrev, load_append, load_joinNext, load_cons, load_cons]
  omega

theorem len_pos_joinNext {x : Span} {spans : List Span} (nonempty : ∀ s ∈ x :: spans, 0 < s.len) :
    ∀ s ∈ joinNext x spans, 0 < s.len := by
  rcases joinNext_cases x spans with ⟨same, _⟩ | ⟨y, rest, rfl, _, joined⟩
  · rwa [same]
  · rw [joined]
    intro s member
    rcases List.mem_cons.mp member with rfl | later
    · exact Nat.add_pos_left (nonempty x (by simp)) _
    · exact nonempty s (by simp [later])

theorem len_pos_joinPrev {left right : List Span} (nonempty : ∀ s ∈ left ++ right, 0 < s.len) :
    ∀ s ∈ joinPrev left right, 0 < s.len := by
  rcases joinPrev_cases left right with ⟨same, _⟩ | ⟨front, p, x, rest, rfl, rfl, _, joined⟩
  · rwa [same]
  · rw [joined]
    intro s member
    rcases List.mem_append.mp member with old | member
    · exact nonempty s (by simp [old])
    · rcases List.mem_cons.mp member with rfl | later
      · exact Nat.add_pos_left (nonempty p (by simp)) _
      · exact nonempty s (by simp [later])

theorem mem_of_upTo {point : Nat} {spans : List Span} {s : Span} (member : s ∈ upTo point spans) :
    s ∈ spans := (List.takeWhile_sublist _).mem member

theorem mem_of_beyond {point : Nat} {spans : List Span} {s : Span}
    (member : s ∈ beyond point spans) : s ∈ spans :=
  (List.dropWhile_sublist _).mem member

theorem len_pos_give {x : Span} {spans : List Span} (nonempty : ∀ s ∈ x :: spans, 0 < s.len) :
    ∀ s ∈ give x spans, 0 < s.len := by
  apply len_pos_joinPrev
  intro s member
  rcases List.mem_append.mp member with left | right
  · exact nonempty s (List.mem_cons_of_mem _ (mem_of_upTo left))
  · refine len_pos_joinNext (fun t memberT => ?_) s right
    rcases List.mem_cons.mp memberT with rfl | later
    · exact nonempty t List.mem_cons_self
    · exact nonempty t (List.mem_cons_of_mem _ (mem_of_beyond later))

/-- What holds of the end of every span of a list holds after an insertion. -/
theorem stop_le_give {x : Span} {spans : List Span} {bound : Nat}
    (nonempty : ∀ s ∈ x :: spans, 0 < s.len) (inside : ∀ s ∈ x :: spans, s.stop ≤ bound) :
    ∀ s ∈ give x spans, s.stop ≤ bound := by
  intro s member
  have positive := len_pos_give nonempty s member
  have ends : s.has (s.stop - 1) = true := by
    simp only [Span.has_iff, Span.stop]
    omega
  have loaded := load_pos member ends
  rw [load_give] at loaded
  obtain ⟨t, memberT, holds⟩ := exists_of_load_pos loaded
  have stopT := inside t memberT
  simp only [Span.has_iff] at holds
  omega

private theorem gap_joinNext {x : Span} {spans : List Span} (sorted : spans.Pairwise Span.Gap)
    (before : ∀ s ∈ spans, x.stop ≤ s.start) (nonempty : ∀ s ∈ spans, 0 < s.len) :
    (joinNext x spans).Pairwise Span.Gap := by
  rcases joinNext_cases x spans with ⟨same, apart⟩ | ⟨y, rest, rfl, adjacent, joined⟩
  · rw [same]
    refine List.Pairwise.cons ?_ sorted
    intro s member
    cases spans with
    | nil => simp at member
    | cons y rest =>
      have first := before y List.mem_cons_self
      have strict := apart y rfl
      have positive := nonempty y List.mem_cons_self
      rcases List.mem_cons.mp member with rfl | later
      · unfold Span.Gap
        omega
      · have gap := List.rel_of_pairwise_cons sorted later
        unfold Span.Gap Span.stop at *
        omega
  · rw [joined]
    refine List.Pairwise.cons ?_ (List.Pairwise.of_cons sorted)
    intro s member
    have gap := List.rel_of_pairwise_cons sorted member
    unfold Span.Gap at gap ⊢
    rwa [Span.join_stop adjacent]

private theorem start_joinNext {x s : Span} {spans : List Span} (member : s ∈ joinNext x spans) :
    s.start = x.start ∨ s ∈ spans := by
  rcases joinNext_cases x spans with ⟨same, _⟩ | ⟨y, rest, rfl, _, joined⟩
  · rw [same] at member
    rcases List.mem_cons.mp member with rfl | later
    · exact Or.inl rfl
    · exact Or.inr later
  · rw [joined] at member
    rcases List.mem_cons.mp member with rfl | later
    · exact Or.inl rfl
    · exact Or.inr (List.mem_cons_of_mem _ later)

private theorem gap_joinPrev {left right : List Span} (sortedLeft : left.Pairwise Span.Gap)
    (sortedRight : right.Pairwise Span.Gap) (before : ∀ a ∈ left, ∀ b ∈ right, a.stop ≤ b.start)
    (nonempty : ∀ s ∈ left ++ right, 0 < s.len) : (joinPrev left right).Pairwise Span.Gap := by
  rcases joinPrev_cases left right with ⟨same, apart⟩ | ⟨front, p, x, rest, rfl, rfl, adjacent, joined⟩
  · rw [same]
    refine List.pairwise_append.mpr ⟨sortedLeft, sortedRight, ?_⟩
    intro a memberA b memberB
    -- only the two spans at the seam can touch, and they do not
    rcases List.eq_nil_or_concat' left with rfl | ⟨front, p, rfl⟩
    · simp at memberA
    cases right with
    | nil => simp at memberB
    | cons x rest =>
      have strict := apart p x (by simp) rfl
      have seam := before p (by simp) x (by simp)
      have lastPos := nonempty p (by simp)
      have firstPos := nonempty x (by simp)
      have leftEnd : a.stop ≤ p.stop := by
        rcases List.mem_append.mp memberA with old | last
        · have gap := (List.pairwise_append.mp sortedLeft).2.2 a old p (by simp)
          unfold Span.Gap Span.stop at *
          omega
        · rw [List.mem_singleton.mp last]
      have rightStart : x.start ≤ b.start := by
        rcases List.mem_cons.mp memberB with rfl | later
        · exact le_rfl
        · have gap := List.rel_of_pairwise_cons sortedRight later
          unfold Span.Gap Span.stop at gap
          omega
      unfold Span.Gap
      omega
  · rw [joined]
    obtain ⟨sortedFront, _, frontLast⟩ := List.pairwise_append.mp sortedLeft
    refine List.pairwise_append.mpr ⟨sortedFront, List.Pairwise.cons ?_ sortedRight.of_cons, ?_⟩
    · intro s member
      have gap := List.rel_of_pairwise_cons sortedRight member
      unfold Span.Gap at gap ⊢
      rwa [Span.join_stop adjacent]
    · intro a memberA b memberB
      have gap := frontLast a memberA p (by simp)
      rcases List.mem_cons.mp memberB with rfl | later
      · exact gap
      · have after := List.rel_of_pairwise_cons sortedRight later
        unfold Span.Gap Span.stop at *
        omega

section Insertion

variable {x : Span} {spans : List Span}

theorem apart_of_single (nonempty : ∀ s ∈ x :: spans, 0 < s.len)
    (single : ∀ p, load (x :: spans) p ≤ 1) {s : Span} (member : s ∈ spans) : x.Apart s := by
  have once : ∀ p, load ([x] ++ spans) p ≤ 1 := single
  exact apart_of_load once List.mem_cons_self member (nonempty x List.mem_cons_self)
    (nonempty s (List.mem_cons_of_mem _ member))

/-- A span that overlaps no span of a sorted list lies between the two parts at its start. -/
theorem stop_le_of_upTo (nonempty : ∀ s ∈ x :: spans, 0 < s.len)
    (single : ∀ p, load (x :: spans) p ≤ 1) {s : Span} (member : s ∈ upTo x.start spans) :
    s.stop ≤ x.start := by
  have starts := start_le_of_upTo member
  have positive := nonempty x List.mem_cons_self
  have positiveS := nonempty s (List.mem_cons_of_mem _ (mem_of_upTo member))
  have clear := apart_of_single nonempty single (mem_of_upTo member)
  unfold Span.Apart Span.stop at *
  omega

theorem stop_le_of_beyond (sorted : spans.Pairwise Span.Gap)
    (nonempty : ∀ s ∈ x :: spans, 0 < s.len) (single : ∀ p, load (x :: spans) p ≤ 1) {s : Span}
    (member : s ∈ beyond x.start spans) : x.stop ≤ s.start := by
  have starts := lt_start_of_beyond sorted member
  have positiveS := nonempty s (List.mem_cons_of_mem _ (mem_of_beyond member))
  have clear := apart_of_single nonempty single (mem_of_beyond member)
  unfold Span.Apart Span.stop at *
  omega

/-- A coalescing insertion of a span that overlaps no old span keeps the list sorted
with gaps, so no two of its spans touch. -/
theorem gap_give (sorted : spans.Pairwise Span.Gap) (nonempty : ∀ s ∈ x :: spans, 0 < s.len)
    (single : ∀ p, load (x :: spans) p ≤ 1) : (give x spans).Pairwise Span.Gap := by
  refine gap_joinPrev (sorted.sublist (List.takeWhile_sublist _))
    (gap_joinNext (sorted.sublist (List.dropWhile_sublist _))
      (fun s member => stop_le_of_beyond sorted nonempty single member)
      (fun s member => nonempty s (List.mem_cons_of_mem _ (mem_of_beyond member)))) ?_ ?_
  · intro a memberA b memberB
    have left := stop_le_of_upTo nonempty single memberA
    rcases start_joinNext memberB with same | old
    · omega
    · have right := stop_le_of_beyond sorted nonempty single old
      unfold Span.stop at *
      omega
  · intro s member
    rcases List.mem_append.mp member with left | right
    · exact nonempty s (List.mem_cons_of_mem _ (mem_of_upTo left))
    · refine len_pos_joinNext (fun t memberT => ?_) s right
      rcases List.mem_cons.mp memberT with rfl | later
      · exact nonempty t List.mem_cons_self
      · exact nonempty t (List.mem_cons_of_mem _ (mem_of_beyond later))

end Insertion

end Scudo.Lib
