import Mathlib.Data.List.Nodup
import Mathlib.Data.List.Perm.Subperm
import Scudo.Lib.Extents
import Scudo.Lib.Linked
import Scudo.SharedArena.Operations

/-!
The free list stored inside the freed pages represents a list of spans, and the two loops
that walk it compute what they are meant to on that list.
-/

namespace Scudo.SharedArena
open Scudo.Lib

/-- The nodes of a free list. -/
def starts (spans : List Span) : List Nat := spans.map Span.start

@[simp] theorem starts_nil : starts [] = [] := rfl

@[simp] theorem starts_cons (b : Span) (spans : List Span) :
    starts (b :: spans) = b.start :: starts spans := rfl

@[simp] theorem starts_append (left right : List Span) :
    starts (left ++ right) = starts left ++ starts right := by simp [starts]

theorem start_mem {b : Span} {spans : List Span} (member : b ∈ spans) : b.start ∈ starts spans :=
  List.mem_map_of_mem member

theorem getLastD_starts_concat (front : List Span) (p : Span) (sentinel : Nat) :
    (starts (front ++ [p])).getLastD sentinel = p.start := by simp

theorem headD_starts_append {front : List Span} (nonempty : front ≠ []) (rest : List Span)
    (sentinel : Nat) :
    (starts (front ++ rest)).headD sentinel = (starts front).headD sentinel := by
  cases front with
  | nil => exact (nonempty rfl).elim
  | cons b front => rfl

theorem mem_middle_cases {b x : Span} {left right : List Span} (member : b ∈ left ++ x :: right) :
    b = x ∨ b ∈ left ++ right := by
  simp only [List.mem_append, List.mem_cons] at member ⊢
  tauto

theorem headD_cases (nodes : List Nat) (sentinel : Nat) :
    nodes.headD sentinel = sentinel ∨ nodes.headD sentinel ∈ nodes := by
  cases nodes <;> simp

theorem getLastD_cases (nodes : List Nat) (sentinel : Nat) :
    nodes.getLastD sentinel = sentinel ∨ nodes.getLastD sentinel ∈ nodes := by
  rcases List.eq_nil_or_concat' nodes with rfl | ⟨front, last, rfl⟩ <;> simp

/-- The links, sizes and magic words in memory are those of the list `free`. -/
structure FreeListAt (m : ArenaMemory) (free : List Span) : Prop where
  head : m.hdr.freeListHeadPageOff = (starts free).headD kFreeListEnd
  count : m.hdr.freeCount = free.length
  linked : Linked m.nextPageOff m.prevPageOff kFreeListEnd (starts free) kFreeListEnd
  size : ∀ b ∈ free, m.sizeInPages b.start = b.len
  magic : ∀ b ∈ free, m.magic b.start = kFreeBlockMagic

/-- Spans that a walk accepts: nonempty and below `total`, which is no sentinel. -/
structure Fits (total : Nat) (free : List Span) : Prop where
  total_lt : total < kFreeListEnd
  nonempty : ∀ b ∈ free, 0 < b.len
  stop_le : ∀ b ∈ free, b.stop ≤ total

theorem Fits.sub {total : Nat} {free part : List Span} (fits : Fits total free)
    (sub : ∀ b ∈ part, b ∈ free) : Fits total part :=
  ⟨fits.total_lt, fun b member => fits.nonempty b (sub b member),
    fun b member => fits.stop_le b (sub b member)⟩

theorem Fits.start_lt {total : Nat} {free : List Span} (fits : Fits total free) {b : Span}
    (member : b ∈ free) : b.start < total := by
  have positive := fits.nonempty b member
  have bound := fits.stop_le b member
  unfold Span.stop at bound
  omega

theorem Fits.start_ne {total : Nat} {free : List Span} (fits : Fits total free) {b : Span}
    (member : b ∈ free) : b.start ≠ kFreeListEnd := by
  have below := fits.start_lt member
  have sentinel := fits.total_lt
  omega

theorem Fits.headD_lt {total : Nat} {free : List Span} (fits : Fits total free)
    (ne : (starts free).headD kFreeListEnd ≠ kFreeListEnd) :
    (starts free).headD kFreeListEnd < total := by
  cases free with
  | nil => exact (ne rfl).elim
  | cons b rest => exact fits.start_lt List.mem_cons_self

theorem Fits.getLastD_lt {total : Nat} {free : List Span} (fits : Fits total free)
    (ne : (starts free).getLastD kFreeListEnd ≠ kFreeListEnd) :
    (starts free).getLastD kFreeListEnd < total := by
  rcases List.eq_nil_or_concat' free with rfl | ⟨front, b, rfl⟩
  · exact (ne rfl).elim
  · simpa using fits.start_lt (b := b) (by simp)

/-- Spans in increasing order that do not overlap; neighbours may touch. -/
def Ordered (spans : List Span) : Prop := spans.Pairwise fun a b => a.stop ≤ b.start

theorem ordered_of_gap {spans : List Span} (sorted : spans.Pairwise Span.Gap) : Ordered spans :=
  sorted.imp fun gap => Nat.le_of_lt gap

theorem Fits.increasing {total : Nat} {spans : List Span} (fits : Fits total spans)
    (ordered : Ordered spans) : (starts spans).Pairwise (· < ·) := by
  refine List.pairwise_map.mpr (ordered.imp_of_mem ?_)
  intro a b memberA _ le
  have positive := fits.nonempty a memberA
  unfold Span.stop at le
  omega

theorem Fits.nodup {total : Nat} {spans : List Span} (fits : Fits total spans)
    (ordered : Ordered spans) : (starts spans).Nodup :=
  (fits.increasing ordered).imp Nat.ne_of_lt

theorem Fits.length_le {total : Nat} {spans : List Span} (fits : Fits total spans)
    (ordered : Ordered spans) : spans.length ≤ total := by
  have sub : starts spans ⊆ List.range total := by
    intro off member
    obtain ⟨b, memberB, rfl⟩ := List.mem_map.mp member
    exact List.mem_range.mpr (fits.start_lt memberB)
  have bound := ((fits.nodup ordered).subperm sub).length_le
  simpa [starts] using bound

theorem Fits.proper {total : Nat} {spans : List Span} (fits : Fits total spans) :
    ∀ off ∈ starts spans, off ≠ kFreeListEnd := by
  intro off member
  obtain ⟨b, memberB, rfl⟩ := List.mem_map.mp member
  exact fits.start_ne memberB

/-- Every block of a represented list passes the validity test of the walks. -/
theorem FreeListAt.looksValid {m : ArenaMemory} {free : List Span} {total : Nat}
    (list : FreeListAt m free) (fits : Fits total free) {b : Span} (member : b ∈ free) :
    sharedArenaFreeBlockLooksValid (m.getFreeBlock b.start) b.start total = true := by
  obtain ⟨left, right, rfl⟩ := List.append_of_mem member
  have linked := list.linked
  rw [starts_append, starts_cons] at linked
  obtain ⟨prevB, nextB⟩ := linked.at_node
  have below := fits.start_lt member
  have positive := fits.nonempty b member
  have bound := fits.stop_le b member
  have leftFits : Fits total left := fits.sub (by simp_all)
  have rightFits : Fits total right := fits.sub (by simp_all)
  have leftBound := leftFits.getLastD_lt
  have rightBound := rightFits.headD_lt
  unfold Span.stop at bound
  unfold sharedArenaFreeBlockLooksValid ArenaMemory.getFreeBlock
  simp only [list.magic b member, list.size b member, prevB, nextB]
  rw [if_neg (by omega), if_neg (by omega), if_neg (by omega), if_neg (by omega)]

theorem FreeListAt.next_eq {m : ArenaMemory} {left right : List Span} {b : Span}
    (list : FreeListAt m (left ++ b :: right)) :
    m.nextPageOff b.start = (starts right).headD kFreeListEnd := by
  have linked := list.linked
  rw [starts_append, starts_cons] at linked
  exact linked.at_node.2

theorem FreeListAt.prev_eq {m : ArenaMemory} {left right : List Span} {b : Span}
    (list : FreeListAt m (left ++ b :: right)) :
    m.prevPageOff b.start = (starts left).getLastD kFreeListEnd := by
  have linked := list.linked
  rw [starts_append, starts_cons] at linked
  exact linked.at_node.1

/-- The insertion walk stops between the blocks up to the new offset and those beyond. -/
theorem FreeListAt.findInsertPoint_eq {m : ArenaMemory} {free : List Span} (point : Nat)
    (list : FreeListAt m free) (fits : Fits m.hdr.totalDataPages free) (fuel : Nat)
    (enough : free.length < fuel) :
    m.findInsertPoint point fuel kFreeListEnd m.hdr.freeListHeadPageOff =
      some ⟨(starts (upTo point free)).getLastD kFreeListEnd,
        (starts (beyond point free)).headD kFreeListEnd, false⟩ := by
  -- the walk from any suffix of the list, carrying the last block passed
  have walk : ∀ (rest done : List Span) (fuel prevOff : Nat), free = done ++ rest →
      rest.length < fuel →
      m.findInsertPoint point fuel prevOff ((starts rest).headD kFreeListEnd) =
        some ⟨(starts (upTo point rest)).getLastD prevOff,
          (starts (beyond point rest)).headD kFreeListEnd, false⟩ := by
    intro rest
    induction rest with
    | nil =>
      intro done fuel prevOff _ enough
      obtain ⟨fuel, rfl⟩ := Nat.exists_eq_succ_of_ne_zero (by omega : fuel ≠ 0)
      simp [ArenaMemory.findInsertPoint]
    | cons b rest ih =>
      intro done fuel prevOff shape enough
      obtain ⟨fuel, rfl⟩ := Nat.exists_eq_succ_of_ne_zero (by omega : fuel ≠ 0)
      have member : b ∈ free := by simp [shape]
      have ne := fits.start_ne member
      have valid := list.looksValid fits member
      have next := (shape ▸ list).next_eq
      rw [starts_cons, List.headD_cons, ArenaMemory.findInsertPoint, if_neg ne, if_neg (by simp [valid])]
      by_cases past : point < b.start
      · rw [if_pos past, upTo_cons_of_lt past, beyond_cons_of_lt past]
        rfl
      · have le : b.start ≤ point := Nat.le_of_not_lt past
        rw [if_neg past, next, ih (done ++ [b]) fuel b.start (by simp [shape]) (by simpa using enough),
          upTo_cons_of_le le, beyond_cons_of_le le, starts_cons, List.getLastD_cons]
  rw [list.head]
  exact walk free [] fuel kFreeListEnd rfl enough

/-- `off` and `pages` describe the smallest block of `seen` that has `needed` pages, the
first one among equals; without any they keep the scan's initial values. -/
def BestIn (needed : Nat) (seen : List Span) (off pages : Nat) : Prop :=
  (off = kFreeListEnd ∧ pages = 0xFFFFFFFF ∧ ∀ c ∈ seen, c.len < needed) ∨
    ∃ left b right, seen = left ++ b :: right ∧ off = b.start ∧ pages = b.len ∧ needed ≤ b.len ∧
      (∀ c ∈ left, c.len < needed ∨ b.len < c.len) ∧ ∀ c ∈ right, c.len < needed ∨ b.len ≤ c.len

theorem BestIn.le_of_fits {needed off pages : Nat} {seen : List Span}
    (best : BestIn needed seen off pages) {c : Span} (member : c ∈ seen) (fits : needed ≤ c.len) :
    pages ≤ c.len := by
  rcases best with ⟨_, _, small⟩ | ⟨left, b, right, rfl, _, rfl, _, before, after⟩
  · have tooSmall := small c member
    omega
  · rcases List.mem_append.mp member with inLeft | member
    · have bound := before c inLeft
      omega
    · rcases List.mem_cons.mp member with rfl | inRight
      · exact le_rfl
      · have bound := after c inRight
        omega

/-- A block that fits and beats the best so far is the new best. -/
theorem BestIn.improve {needed off pages : Nat} {seen : List Span} {b : Span}
    (best : BestIn needed seen off pages) (fits : needed ≤ b.len) (better : b.len < pages) :
    BestIn needed (seen ++ [b]) b.start b.len := by
  refine Or.inr ⟨seen, b, [], by simp, rfl, rfl, fits, ?_, by simp⟩
  intro c member
  by_cases large : needed ≤ c.len
  · have bound := best.le_of_fits member large
    omega
  · omega

theorem BestIn.skip {needed off pages : Nat} {seen : List Span} {b : Span}
    (best : BestIn needed seen off pages) (small : b.len < 0xFFFFFFFF)
    (worse : ¬(needed ≤ b.len ∧ b.len < pages)) : BestIn needed (seen ++ [b]) off pages := by
  rcases best with ⟨rfl, rfl, none⟩ | ⟨left, c, right, rfl, rfl, rfl, fits, before, after⟩
  · refine Or.inl ⟨rfl, rfl, ?_⟩
    intro c member
    rcases List.mem_append.mp member with old | new
    · exact none c old
    · rw [List.mem_singleton.mp new]
      omega
  · refine Or.inr ⟨left, c, right ++ [b], by simp, rfl, rfl, fits, before, ?_⟩
    intro d member
    rcases List.mem_append.mp member with old | new
    · exact after d old
    · rw [List.mem_singleton.mp new]
      omega

/-- An exact fit ends the scan: no later block can be smaller. -/
theorem BestIn.settle {needed off pages : Nat} {seen rest : List Span} {b : Span}
    (best : BestIn needed seen off pages) (exactFit : b.len = needed) (better : b.len < pages) :
    BestIn needed (seen ++ b :: rest) b.start b.len := by
  refine Or.inr ⟨seen, b, rest, rfl, rfl, rfl, exactFit.ge, ?_, ?_⟩
  · intro c member
    by_cases large : needed ≤ c.len
    · have bound := best.le_of_fits member large
      omega
    · omega
  · intro c _
    omega

/-- The scan of `retrieve` finds the best fit of the whole list. -/
theorem FreeListAt.bestFitScan_spec {m : ArenaMemory} {free : List Span} (needed : Nat)
    (list : FreeListAt m free) (fits : Fits m.hdr.totalDataPages free) (fuel : Nat)
    (enough : free.length < fuel) :
    ∃ off pages, m.bestFitScan needed fuel m.hdr.freeListHeadPageOff kFreeListEnd 0xFFFFFFFF =
      some ⟨off, false⟩ ∧ BestIn needed free off pages := by
  have scan : ∀ (rest seen : List Span) (fuel bestOff bestPages : Nat), free = seen ++ rest →
      rest.length < fuel → BestIn needed seen bestOff bestPages →
      ∃ off pages, m.bestFitScan needed fuel ((starts rest).headD kFreeListEnd) bestOff bestPages =
        some ⟨off, false⟩ ∧ BestIn needed free off pages := by
    intro rest
    induction rest with
    | nil =>
      intro seen fuel bestOff bestPages shape enough best
      obtain ⟨fuel, rfl⟩ := Nat.exists_eq_succ_of_ne_zero (by omega : fuel ≠ 0)
      rw [List.append_nil] at shape
      exact ⟨bestOff, bestPages, by simp [ArenaMemory.bestFitScan], shape ▸ best⟩
    | cons b rest ih =>
      intro seen fuel bestOff bestPages shape enough best
      obtain ⟨fuel, rfl⟩ := Nat.exists_eq_succ_of_ne_zero (by omega : fuel ≠ 0)
      have member : b ∈ free := by simp [shape]
      have ne := fits.start_ne member
      have valid := list.looksValid fits member
      have next := (shape ▸ list).next_eq
      have size := list.size b member
      have magic := list.magic b member
      have small : b.len < 0xFFFFFFFF := by
        have bound := fits.stop_le b member
        have sentinel := fits.total_lt
        unfold Span.stop at bound
        unfold kFreeListEnd at sentinel
        omega
      have shape' : free = (seen ++ [b]) ++ rest := by simp [shape]
      have enough' : rest.length < fuel := by simpa using enough
      rw [starts_cons, List.headD_cons, ArenaMemory.bestFitScan, if_neg ne, if_neg (by simp [valid])]
      simp only [ArenaMemory.getFreeBlock, size, magic, next, true_and]
      by_cases better : needed ≤ b.len ∧ b.len < bestPages
      · rw [if_pos better]
        by_cases exactFit : b.len = needed
        · rw [if_pos exactFit]
          exact ⟨b.start, b.len, rfl, shape ▸ best.settle exactFit better.2⟩
        · rw [if_neg exactFit]
          exact ih (seen ++ [b]) fuel b.start b.len shape' enough'
            (best.improve better.1 better.2)
      · rw [if_neg better]
        exact ih (seen ++ [b]) fuel bestOff bestPages shape' enough' (best.skip small better)
  rw [list.head]
  exact scan free [] fuel kFreeListEnd 0xFFFFFFFF rfl enough (Or.inl ⟨rfl, rfl, by simp⟩)

end Scudo.SharedArena
