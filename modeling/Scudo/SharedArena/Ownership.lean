import Scudo.SharedArena.System

/-!
No two blocks of an arena overlap, whatever the processes do.
-/

namespace Scudo.SharedArena
open Scudo.Lib

/-- The offsets that a walk from the head of the free list visits. -/
inductive OnFreeList (m : ArenaMemory) : Nat → Prop
  | head (proper : m.hdr.freeListHeadPageOff ≠ kFreeListEnd) :
      OnFreeList m m.hdr.freeListHeadPageOff
  | next {off : Nat} (before : OnFreeList m off) (proper : m.nextPageOff off ≠ kFreeListEnd) :
      OnFreeList m (m.nextPageOff off)

theorem FreeListAt.of_onFreeList {m : ArenaMemory} {free : List Span} (list : FreeListAt m free)
    {off : Nat} (visited : OnFreeList m off) : ∃ b ∈ free, b.start = off := by
  induction visited with
  | head proper =>
    rw [list.head] at proper ⊢
    cases free with
    | nil => exact (proper rfl).elim
    | cons b rest => exact ⟨b, List.mem_cons_self, rfl⟩
  | next before proper ih =>
    obtain ⟨b, member, rfl⟩ := ih
    obtain ⟨left, right, rfl⟩ := List.append_of_mem member
    rw [list.next_eq] at proper ⊢
    cases right with
    | nil => exact (proper rfl).elim
    | cons c rest => exact ⟨c, by simp, rfl⟩

/-- Two address ranges share no byte. -/
def Handed.Disjoint (a b : Handed) : Prop := a.base + a.size ≤ b.base ∨ b.base + b.size ≤ a.base

/-- The block of the free list at `off`, as an address range. -/
def freeRange (m : ArenaMemory) (core off : Nat) : Handed :=
  ⟨pageAddr core off, m.sizeInPages off * 4096⟩

/-- The blocks that are out are page-aligned ranges of pages below the bump pointer, disjoint
from each other and from all free blocks. -/
structure NoOverlap (m : ArenaMemory) (core : Nat) (held : List Handed) : Prop where
  aligned : ∀ b ∈ held, 4096 ∣ b.base ∧ 4096 ∣ b.size ∧ 0 < b.size
  disjoint : held.Pairwise Handed.Disjoint
  inside : ∀ b ∈ held, pageAddr core 0 ≤ b.base ∧
    b.base + b.size ≤ pageAddr core m.hdr.bumpOffsetInPages
  bump_le : m.hdr.bumpOffsetInPages ≤ m.hdr.totalDataPages
  free : ∀ b ∈ held, ∀ off, OnFreeList m off → b.Disjoint (freeRange m core off)

theorem disjoint_of_apart {core : Nat} {a b : Span} (apart : a.Apart b) :
    (handedOf core a).Disjoint (handedOf core b) := by
  unfold Span.Apart Span.stop at apart
  unfold Handed.Disjoint handedOf pageAddr
  simp only
  omega

theorem Tracks.noOverlap {w : World} {core : Nat} {e : Extents arenaPages}
    (tracks : Tracks w core e) : NoOverlap (w.mem core) core (w.held core) := by
  have rep := tracks.rep
  rw [tracks.held]
  constructor
  · intro block held
    obtain ⟨x, member, rfl⟩ := List.mem_map.mp held
    have positive := e.nonempty x (List.mem_append_right _ member)
    exact ⟨dvd_pageAddr core x.start, Nat.dvd_mul_left 4096 x.len, Nat.mul_pos positive (by decide)⟩
  · exact List.pairwise_map.mpr (e.held_apart.imp disjoint_of_apart)
  · intro block held
    obtain ⟨x, member, rfl⟩ := List.mem_map.mp held
    have below := e.inside x (List.mem_append_right _ member)
    unfold Span.stop at below
    rw [rep.bump]
    unfold handedOf pageAddr
    simp only
    omega
  · rw [rep.bump, rep.total]
    exact e.bounded
  · intro block held off visited
    obtain ⟨x, member, rfl⟩ := List.mem_map.mp held
    obtain ⟨b, free, rfl⟩ := rep.free.of_onFreeList visited
    have range : freeRange (w.mem core) core b.start = handedOf core b := by
      unfold freeRange handedOf
      rw [rep.free.size b free]
    rw [range]
    have apart := e.free_apart_held free member
    exact disjoint_of_apart apart.symm

/-- In every reachable state the blocks of every arena are in place, every operation ends,
and no page count wraps. -/
theorem shared_arena_no_overlap (env : Nat → EnvCache) (w : World)
    (reached : (World.system env).Reachable w) (core : Nat) :
    NoOverlap (w.mem core) core (w.held core) ∧
      (∀ process loads size alignment headersSize, Request size alignment headersSize →
        (w.retrieve (env process) process core loads size alignment headersSize).isSome = true ∧
        Arena.neededPages PageSize.small size headersSize =
          (size + headersSize + 4095) / 4096 ∧
        wadd 32 (w.mem core).hdr.bumpOffsetInPages
            (Arena.neededPages PageSize.small size headersSize) =
          (w.mem core).hdr.bumpOffsetInPages +
            Arena.neededPages PageSize.small size headersSize) ∧
      ∀ process logCore loads base size, ⟨base, size⟩ ∈ w.held core →
        (w.store (env process) process core logCore loads base size).isSome = true := by
  have sound := World.reachable_sound reached
  obtain ⟨e, tracks⟩ := sound.tracks core
  refine ⟨tracks.noOverlap, ?_, ?_⟩
  · intro process loads size alignment headersSize request
    obtain ⟨out, w', e', change, written, run, _, _⟩ :=
      tracks.retrieve process sound.placed (env process) loads request
    obtain ⟨_, above, below⟩ := request.pages
    have bounded := request.pages_lt
    have room := e.bounded
    have pages := arenaPages_eq
    change _ ∧ pagesFor size headersSize = _ ∧ wadd 32 _ (pagesFor size headersSize) = _
    rw [run, tracks.rep.bump]
    refine ⟨rfl, ?_, wadd_eq (by omega)⟩
    omega
  · intro process logCore loads base size held
    obtain ⟨ok, w', e', change, written, run, _, _⟩ :=
      tracks.store process sound.placed (env process) logCore loads held
    rw [run]
    rfl

/-- Two processes share the arena of core 0; each retrieves a block and the first stores its own. -/
theorem shared_arena_no_overlap_two_processes :
    ∃ w, World.fresh.calls (fun _ => ⟨false, false⟩)
        [.retrieve 1 0 ⟨0, 0⟩ 4000 16 80, .retrieve 2 0 ⟨0, 0⟩ 9000 64 80,
          .store 1 0 none ⟨0, 0⟩ (pageAddr 0 0) 4096] = some w ∧
      NoOverlap (w.mem 0) 0 (w.held 0) ∧
      (w.retrieve ⟨false, false⟩ 2 0 ⟨0, 0⟩ 100 16 80).isSome = true ∧
      (w.store ⟨false, false⟩ 2 0 (some 1) ⟨0, 0⟩ (pageAddr 0 1) 12288).isSome = true := by
  obtain ⟨w, run⟩ := Option.isSome_iff_exists.mp (show (World.fresh.calls
    (fun _ => ⟨false, false⟩) [.retrieve 1 0 ⟨0, 0⟩ 4000 16 80, .retrieve 2 0 ⟨0, 0⟩ 9000 64 80,
      .store 1 0 none ⟨0, 0⟩ (pageAddr 0 0) 4096]).isSome = true by decide)
  have held : (World.fresh.calls (fun _ => ⟨false, false⟩) [.retrieve 1 0 ⟨0, 0⟩ 4000 16 80,
      .retrieve 2 0 ⟨0, 0⟩ 9000 64 80, .store 1 0 none ⟨0, 0⟩ (pageAddr 0 0) 4096]).map
        (fun w => w.held 0) = some [⟨pageAddr 0 1, 12288⟩] := by decide
  rw [run] at held
  have own : w.held 0 = [⟨pageAddr 0 1, 12288⟩] := Option.some.inj held
  have reached := World.reachable_of_calls (System.Reachable.init World.fresh_initial) run
  obtain ⟨apart, retrieves, stores⟩ := shared_arena_no_overlap _ w reached 0
  exact ⟨w, run, apart, (retrieves 2 ⟨0, 0⟩ 100 16 80 (by decide)).1,
    stores 2 (some 1) ⟨0, 0⟩ _ _ (by simp [own])⟩

end Scudo.SharedArena
