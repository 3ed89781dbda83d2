import Scudo.Lib.Span

/-!
Bookkeeping of an address space `[0, capacity)` that is handed out by a bump pointer and
recycled through a coalesced free list. The record carries its own well-formedness, so an
operation on it cannot produce overlapping spans.
-/

namespace Scudo.Lib

/-- Spans free for reuse and spans handed out, below the bump pointer and never overlapping.
A point below the bump pointer may be in neither list. -/
structure Extents (capacity : Nat) where
  bump : Nat
  free : List Span
  held : List Span
  sorted : free.Pairwise Span.Gap
  nonempty : ∀ s ∈ free ++ held, 0 < s.len
  single : ∀ p, load (free ++ held) p ≤ 1
  inside : ∀ s ∈ free ++ held, s.stop ≤ bump
  bounded : bump ≤ capacity

namespace Extents

variable {capacity : Nat}

def empty : Extents capacity where
  bump := 0
  free := []
  held := []
  sorted := List.Pairwise.nil
  nonempty := by simp
  single := by simp
  inside := by simp
  bounded := Nat.zero_le _

theorem held_apart (e : Extents capacity) : e.held.Pairwise Span.Apart :=
  pairwise_apart_of_load (fun s member => e.nonempty s (List.mem_append_right _ member))
    (fun p => by
      have once := e.single p
      rw [load_append] at once
      omega)

theorem free_apart_held (e : Extents capacity) {a b : Span} (free : a ∈ e.free) (held : b ∈ e.held) :
    a.Apart b :=
  apart_of_load e.single free held (e.nonempty a (List.mem_append_left _ free))
    (e.nonempty b (List.mem_append_right _ held))

/-- The last `need` points of a span, and what is left of it. -/
def tailOf (b : Span) (need : Nat) : Span := ⟨b.stop - need, need⟩

def frontOf (b : Span) (need : Nat) : List Span :=
  if b.len = need then [] else [⟨b.start, b.len - need⟩]

theorem load_frontOf_tailOf {b : Span} {need : Nat} (fits : need ≤ b.len) (p : Nat) :
    load (frontOf b need) p + load [tailOf b need] p = load [b] p := by
  unfold frontOf tailOf
  by_cases exact_ : b.len = need
  · rw [if_pos exact_, ← exact_]
    simp [Span.has, Span.stop]
  · rw [if_neg exact_]
    have front := Span.has_iff ⟨b.start, b.len - need⟩ p
    have tail := Span.has_iff ⟨b.stop - need, need⟩ p
    have whole := Span.has_iff b p
    simp only [Span.stop] at front tail whole
    simp only [load_cons, load_nil, front, tail, whole, Span.stop]
    split_ifs <;> omega

theorem mem_frontOf {b s : Span} {need : Nat} (member : s ∈ frontOf b need) :
    s.start = b.start ∧ s.len = b.len - need ∧ b.len ≠ need := by
  unfold frontOf at member
  split_ifs at member with exact_
  · simp at member
  · rw [List.mem_singleton] at member
    subst member
    exact ⟨rfl, rfl, exact_⟩

/-- Hand out the tail of one free span. -/
def takeTail (e : Extents capacity) (left right : List Span) (b : Span) (need : Nat)
    (shape : e.free = left ++ b :: right) (positive : 0 < need) (fits : need ≤ b.len) :
    Extents capacity where
  bump := e.bump
  free := left ++ frontOf b need ++ right
  held := tailOf b need :: e.held
  sorted := by
    have sorted := e.sorted
    rw [shape, List.pairwise_append, List.pairwise_cons] at sorted
    obtain ⟨sortedLeft, ⟨afterB, sortedRight⟩, across⟩ := sorted
    refine List.pairwise_append.mpr ⟨List.pairwise_append.mpr ⟨sortedLeft, ?_, ?_⟩, sortedRight, ?_⟩
    · unfold frontOf
      split_ifs <;> simp
    · intro a memberA c memberC
      have gap := across a memberA b List.mem_cons_self
      obtain ⟨start, -, -⟩ := mem_frontOf memberC
      unfold Span.Gap at *
      omega
    · intro a memberA c memberC
      rcases List.mem_append.mp memberA with left | front
      · exact across a left c (List.mem_cons_of_mem _ memberC)
      · have gap := afterB c memberC
        obtain ⟨start, len, -⟩ := mem_frontOf front
        unfold Span.Gap Span.stop at *
        omega
  nonempty := by
    have old := e.nonempty
    rw [shape] at old
    intro s member
    simp only [List.mem_append, List.mem_cons] at member
    rcases member with ((left | front) | right) | rfl | held
    · exact old s (by simp [left])
    · have positiveB := old b (by simp)
      obtain ⟨-, len, proper⟩ := mem_frontOf front
      omega
    · exact old s (by simp [right])
    · exact positive
    · exact old s (by simp [held])
  single := by
    intro p
    have once := e.single p
    have split := load_frontOf_tailOf fits p
    rw [shape] at once
    simp only [load_append, load_cons, load_nil] at once split ⊢
    omega
  inside := by
    have old := e.inside
    rw [shape] at old
    intro s member
    have endB := old b (by simp)
    simp only [List.mem_append, List.mem_cons] at member
    rcases member with ((left | front) | right) | rfl | held
    · exact old s (by simp [left])
    · obtain ⟨start, len, -⟩ := mem_frontOf front
      unfold Span.stop at *
      omega
    · exact old s (by simp [right])
    · unfold tailOf Span.stop at *
      simp only
      omega
    · exact old s (by simp [held])
  bounded := e.bounded

theorem forall_grown (e : Extents capacity) {p : Span → Prop} {x : Span}
    (every : ∀ s ∈ e.free ++ e.held, p s) (new : p x) : ∀ s ∈ e.free ++ x :: e.held, p s := by
  intro s member
  simp only [List.mem_append, List.mem_cons] at member
  rcases member with free | rfl | held
  · exact every s (by simp [free])
  · exact new
  · exact every s (by simp [held])

theorem load_bump (e : Extents capacity) (need p : Nat) :
    load (e.free ++ ⟨e.bump, need⟩ :: e.held) p ≤ 1 := by
  have once := e.single p
  simp only [load_append, load_cons, Span.has_iff] at once ⊢
  split_ifs with above
  · -- a loaded point would lie below the old bump pointer
    have unloaded : ¬0 < load (e.free ++ e.held) p := by
      intro loaded
      obtain ⟨s, member, holds⟩ := exists_of_load_pos loaded
      have below := e.inside s member
      simp only [Span.has_iff] at holds
      omega
    rw [load_append] at unloaded
    omega
  · omega

/-- Hand out fresh points above the bump pointer. -/
def takeBump (e : Extents capacity) (need : Nat) (positive : 0 < need)
    (room : e.bump + need ≤ capacity) : Extents capacity where
  bump := e.bump + need
  free := e.free
  held := ⟨e.bump, need⟩ :: e.held
  sorted := e.sorted
  nonempty := e.forall_grown e.nonempty positive
  single := e.load_bump need
  inside := e.forall_grown (fun s member => (e.inside s member).trans (Nat.le_add_right _ _)) le_rfl
  bounded := room

theorem perm_erase (e : Extents capacity) {x : Span} (member : x ∈ e.held) :
    (e.free ++ e.held).Perm (x :: e.free ++ e.held.erase x) :=
  ((List.perm_cons_erase member).append_left _).trans List.perm_middle

/-- Take a handed-out span back into the free list. -/
def giveBack (e : Extents capacity) (x : Span) (member : x ∈ e.held) : Extents capacity where
  bump := e.bump
  free := give x e.free
  held := e.held.erase x
  sorted := by
    have perm := e.perm_erase member
    apply gap_give e.sorted
    · intro s memberS
      exact e.nonempty s (perm.mem_iff.mpr (List.mem_append_left _ memberS))
    · intro p
      have once := e.single p
      rw [load_perm perm, load_append] at once
      omega
  nonempty := by
    have perm := e.perm_erase member
    intro s memberS
    rcases List.mem_append.mp memberS with free | held
    · exact len_pos_give (fun t memberT =>
        e.nonempty t (perm.mem_iff.mpr (List.mem_append_left _ memberT))) s free
    · exact e.nonempty s (perm.mem_iff.mpr (List.mem_append_right _ held))
  single := by
    intro p
    have once := e.single p
    rw [load_perm (e.perm_erase member), load_append] at once
    rwa [load_append, load_give]
  inside := by
    have perm := e.perm_erase member
    intro s memberS
    rcases List.mem_append.mp memberS with free | held
    · exact stop_le_give
        (fun t memberT => e.nonempty t (perm.mem_iff.mpr (List.mem_append_left _ memberT)))
        (fun t memberT => e.inside t (perm.mem_iff.mpr (List.mem_append_left _ memberT))) s free
    · exact e.inside s (perm.mem_iff.mpr (List.mem_append_right _ held))
  bounded := e.bounded

/-- Drop a handed-out span without recycling it. -/
def forget (e : Extents capacity) (x : Span) : Extents capacity where
  bump := e.bump
  free := e.free
  held := e.held.erase x
  sorted := e.sorted
  nonempty := by
    intro s member
    apply e.nonempty s
    rcases List.mem_append.mp member with free | held
    · exact List.mem_append_left _ free
    · exact List.mem_append_right _ (List.mem_of_mem_erase held)
  single := by
    intro p
    have once := e.single p
    have fewer : load (e.held.erase x) p ≤ load e.held p :=
      List.Sublist.countP_le List.erase_sublist
    rw [load_append] at once ⊢
    omega
  inside := by
    intro s member
    apply e.inside s
    rcases List.mem_append.mp member with free | held
    · exact List.mem_append_left _ free
    · exact List.mem_append_right _ (List.mem_of_mem_erase held)
  bounded := e.bounded

/-- `e.Takes need x e'`: the `need` points of `x` leave the free spans or the fresh space. -/
inductive Takes (e : Extents capacity) (need : Nat) : Span → Extents capacity → Prop
  | tail (left right : List Span) (b : Span) (shape : e.free = left ++ b :: right)
      (positive : 0 < need) (fits : need ≤ b.len) :
      Takes e need (tailOf b need) (e.takeTail left right b need shape positive fits)
  | bump (positive : 0 < need) (room : e.bump + need ≤ capacity) :
      Takes e need ⟨e.bump, need⟩ (e.takeBump need positive room)

variable {e e' : Extents capacity} {need : Nat} {x : Span}

theorem Takes.held_eq (takes : e.Takes need x e') : e'.held = x :: e.held := by
  cases takes <;> rfl

theorem Takes.len_eq (takes : e.Takes need x e') : x.len = need := by
  cases takes <;> rfl

theorem Takes.forget_held (takes : e.Takes need x e') : (e'.forget x).held = e.held := by
  change e'.held.erase x = e.held
  rw [takes.held_eq, List.erase_cons_head]

theorem Takes.mem_held (takes : e.Takes need x e') : x ∈ e'.held := by
  rw [takes.held_eq]
  exact List.mem_cons_self

end Extents

end Scudo.Lib
