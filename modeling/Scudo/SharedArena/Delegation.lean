import Scudo.Lib.Ledger
import Scudo.SharedArena.Ownership

/-!
The delegation log as a ledger of page ownership: replayed in append order it is exact, and
draining ring by ring is exact for a page when its rings agree on what came last.
-/

namespace Scudo.SharedArena
open Scudo.Lib

def changeOf (entry : SharedArenaLogEntry) : Change :=
  ⟨entry.op = .alloc, ⟨entry.startPage, entry.numPages⟩⟩

/-- The entries of all rings that name `core` as their owner, as changes of page marks. -/
def ledgerOf (core : Nat) (log : List LogRecord) : List Change :=
  (log.filter (fun r => r.entry.srcCpu = core)).map (fun r => changeOf r.entry)

/-- A page bitmap on which nothing is marked. -/
def clear : Nat → Bool := fun _ => false

/-- The page marks of `core` after the entries of `log`, taken in this order. -/
def marksAfter (core : Nat) (log : List LogRecord) : Nat → Bool := replay clear (ledgerOf core log)

/-- No process runs without the kernel. -/
def KernelMode (env : Nat → EnvCache) : Prop := ∀ process, (env process).allowNoKernel = false

theorem ledgerOf_append (core : Nat) (log more : List LogRecord) :
    ledgerOf core (log ++ more) = ledgerOf core log ++ ledgerOf core more := by
  simp [ledgerOf]

section HeldPages

variable {w : World} {core : Nat} {e : Extents arenaPages}

theorem Tracks.heldPage_iff (tracks : Tracks w core e) (p : Nat) :
    w.HeldPage core p ↔ ∃ x ∈ e.held, x.has p = true := by
  have covers : ∀ x : Span, ((handedOf core x).base ≤ pageAddr core p ∧
      pageAddr core p < (handedOf core x).base + (handedOf core x).size) ↔ x.has p = true := by
    intro x
    rw [Span.has_iff]
    unfold handedOf pageAddr Span.stop
    simp only
    omega
  unfold World.HeldPage
  rw [tracks.held]
  simp only [List.mem_map, exists_exists_and_eq_and, covers]

/-- A page lies in one held span at most. -/
theorem held_unique (e : Extents arenaPages) {x : Span} {rest : List Span}
    (perm : e.held.Perm (x :: rest)) {p : Nat} (inside : x.has p = true) :
    ¬∃ y ∈ rest, y.has p = true := by
  rintro ⟨y, member, insideY⟩
  have once := e.single p
  have first : 0 < load rest p := load_pos member insideY
  rw [load_append, load_perm perm, load_cons, if_pos inside] at once
  omega

end HeldPages

/-- The ledger of every core replays without a surprise and marks the pages that are out. -/
structure Exact (w : World) (core : Nat) : Prop where
  flips : FlipsAll clear (ledgerOf core w.log)
  marks : ∀ p, marksAfter core w.log p = true ↔ w.HeldPage core p

theorem ledgerOf_other {core other process ring : Nat} {written : Option SharedArenaLogEntry}
    (differ : other ≠ core) (owner : ∀ entry, written = some entry → entry.srcCpu = core) :
    ledgerOf other (recordsOf process ring written) = [] := by
  cases written with
  | none => rfl
  | some entry =>
    have own := owner entry rfl
    simp [ledgerOf, recordsOf, own, differ.symm]

section Step

variable {env : EnvCache} {w w' : World} {process core ring : Nat} {e e' : Extents arenaPages}
  {change written : Option SharedArenaLogEntry}

theorem HeldChange.owner (changed : HeldChange core e e' change) {entry : SharedArenaLogEntry}
    (some : change = some entry) : entry.srcCpu = core := by
  cases changed with
  | same same => cases some
  | alloc x grown =>
    cases some
    rfl
  | free x member shrunk =>
    cases some
    rfl

/-- An operation keeps the ledger of its own arena exact. -/
theorem Effect.exact (effect : Effect env w w' process core ring e e' change written)
    (tracks : Tracks w core e) (kernel : env.allowNoKernel = false) (before : Exact w core) :
    Exact w' core := by
  obtain rfl := effect.kernel kernel
  have heldBefore := tracks.heldPage_iff
  have heldAfter := effect.tracks.heldPage_iff
  have marks := before.marks
  have flips := before.flips
  unfold marksAfter at marks
  cases effect.changed with
  | same same =>
    have log : w'.log = w.log := by simpa [recordsOf] using effect.logged
    refine ⟨log ▸ flips, ?_⟩
    intro p
    rw [log, heldAfter, same, ← heldBefore]
    exact marks p
  | alloc x grown =>
    have log : ledgerOf core w'.log = ledgerOf core w.log ++ [⟨true, x⟩] := by
      rw [effect.logged, ledgerOf_append]
      simp [recordsOf, ledgerOf, allocEntry, changeOf]
    have fresh : ∀ p, x.has p = true → ¬∃ y ∈ e.held, y.has p = true := fun p inside =>
      held_unique e' (grown ▸ List.Perm.refl _) inside
    refine ⟨?_, ?_⟩
    · rw [log, flipsAll_concat]
      refine ⟨flips, ?_⟩
      intro p inside
      have unmarked := mt (marks p).mp (mt (heldBefore p).mp (fresh p inside))
      simpa using unmarked
    · intro p
      unfold marksAfter
      rw [log, replay_concat, heldAfter, grown]
      unfold Change.apply
      simp only [List.mem_cons, exists_eq_or_imp]
      by_cases inside : x.has p = true
      · rw [if_pos inside]
        exact ⟨fun _ => Or.inl inside, fun _ => rfl⟩
      · rw [if_neg inside, marks p, heldBefore]
        exact ⟨Or.inr, fun held => held.resolve_left inside⟩
  | free x member shrunk =>
    have log : ledgerOf core w'.log = ledgerOf core w.log ++ [⟨false, x⟩] := by
      rw [effect.logged, ledgerOf_append]
      simp [recordsOf, ledgerOf, freeEntry, changeOf]
    have perm : e.held.Perm (x :: e.held.erase x) := List.perm_cons_erase member
    refine ⟨?_, ?_⟩
    · rw [log, flipsAll_concat]
      refine ⟨flips, ?_⟩
      intro p inside
      exact (marks p).mpr ((heldBefore p).mpr ⟨x, member, inside⟩)
    · intro p
      unfold marksAfter
      rw [log, replay_concat, heldAfter, shrunk]
      unfold Change.apply
      by_cases inside : x.has p = true
      · rw [if_pos inside]
        exact ⟨fun old => absurd old Bool.false_ne_true,
          fun held => (held_unique e perm inside held).elim⟩
      · rw [if_neg inside, marks p, heldBefore]
        simp only [perm.mem_iff, List.mem_cons, exists_eq_or_imp]
        exact ⟨fun held => held.resolve_left inside, Or.inr⟩

/-- An operation on one arena does not concern the ledger of another. -/
theorem Effect.exact_other (effect : Effect env w w' process core ring e e' change written)
    (kernel : env.allowNoKernel = false) {other : Nat} (differ : other ≠ core)
    (before : Exact w other) : Exact w' other := by
  have owner : ∀ entry, written = some entry → entry.srcCpu = core := by
    intro entry some
    exact effect.changed.owner (effect.kernel kernel ▸ some)
  have log : ledgerOf other w'.log = ledgerOf other w.log := by
    rw [effect.logged, ledgerOf_append, ledgerOf_other differ owner, List.append_nil]
  refine ⟨log ▸ before.flips, ?_⟩
  intro p
  have marks := before.marks p
  unfold marksAfter World.HeldPage at marks ⊢
  rw [log, effect.held other differ]
  exact marks

end Step

/-- In every reachable state the ledger of every arena is exact. -/
theorem World.reachable_exact {env : Nat → EnvCache} (kernel : KernelMode env) {w : World}
    (reached : (World.system env).Reachable w) (core : Nat) : Exact w core := by
  have all : ∀ core, Exact w core := by
    apply reached.strengthen
    · intro s initial core
      have start : World.Initial s := initial
      refine ⟨by rw [start.log]; trivial, ?_⟩
      intro p
      unfold marksAfter World.HeldPage
      rw [start.log, start.held]
      simp [ledgerOf, replay, clear]
    · intro s s' before exact_ move core
      have step : World.Step env s s' := move
      rcases step.cases (World.reachable_sound before) with
        ⟨process, acting, ring, e, e', change, written, tracks, effect⟩ | ⟨_, held, log, _⟩
      · by_cases own : core = acting
        · subst own
          exact effect.exact tracks (kernel process) (exact_ core)
        · exact effect.exact_other (kernel process) own (exact_ core)
      · have old := exact_ core
        refine ⟨log ▸ old.flips, ?_⟩
        intro p
        have marks := old.marks p
        unfold World.HeldPage at marks ⊢
        rw [log, held]
        exact marks
  exact all core

/-- Replaying the log in append order refines the allocation state of every arena, and an
operation that fails appends nothing. -/
theorem delegation_log_refines (env : Nat → EnvCache) (kernel : KernelMode env) (w : World)
    (reached : (World.system env).Reachable w) (core : Nat) :
    FlipsAll clear (ledgerOf core w.log) ∧
      (∀ p, marksAfter core w.log p = true ↔ w.HeldPage core p) ∧
      (∀ process loads size alignment headersSize w',
        Request size alignment headersSize →
        w.retrieve (env process) process core loads size alignment headersSize =
          some (none, w') → w'.log = w.log) ∧
      ∀ process logCore loads base size w', ⟨base, size⟩ ∈ w.held core →
        w.store (env process) process core logCore loads base size = some (false, w') →
        w'.log = w.log := by
  have sound := World.reachable_sound reached
  have exact_ := World.reachable_exact kernel reached core
  obtain ⟨e, tracks⟩ := sound.tracks core
  refine ⟨exact_.flips, exact_.marks, ?_, ?_⟩
  · intro process loads size alignment headersSize w' request run
    obtain ⟨out, w'', e', change, written, run', effect, failed⟩ :=
      tracks.retrieve process sound.placed (env process) loads request
    rw [run] at run'
    cases run'
    rw [effect.logged, (failed rfl).1]
    exact List.append_nil _
  · intro process logCore loads base size w' held run
    obtain ⟨ok, w'', e', change, written, run', effect, failed⟩ :=
      tracks.store process sound.placed (env process) logCore loads held
    rw [run] at run'
    cases run'
    rw [effect.logged, (failed rfl).1]
    exact List.append_nil _

/-- A block retrieved from core 0 by one process and stored by another that runs on core 1. -/
theorem delegation_log_refines_cross_core :
    ∃ w, World.fresh.calls (fun _ => ⟨false, false⟩)
        [.retrieve 1 0 ⟨0, 0⟩ 4000 16 80, .retrieve 2 0 ⟨0, 0⟩ 9000 64 80,
          .store 2 0 (some 1) ⟨0, 0⟩ (pageAddr 0 0) 4096] = some w ∧
      w.log = [⟨1, 0, allocEntry 0 ⟨0, 1⟩⟩, ⟨2, 0, allocEntry 0 ⟨1, 3⟩⟩, ⟨2, 1, freeEntry 0 ⟨0, 1⟩⟩] ∧
      FlipsAll clear (ledgerOf 0 w.log) ∧ ∀ p, marksAfter 0 w.log p = true ↔ w.HeldPage 0 p := by
  obtain ⟨w, run⟩ := Option.isSome_iff_exists.mp (show (World.fresh.calls
    (fun _ => ⟨false, false⟩) [.retrieve 1 0 ⟨0, 0⟩ 4000 16 80, .retrieve 2 0 ⟨0, 0⟩ 9000 64 80,
      .store 2 0 (some 1) ⟨0, 0⟩ (pageAddr 0 0) 4096]).isSome = true by decide)
  have log : (World.fresh.calls (fun _ => ⟨false, false⟩) [.retrieve 1 0 ⟨0, 0⟩ 4000 16 80,
      .retrieve 2 0 ⟨0, 0⟩ 9000 64 80, .store 2 0 (some 1) ⟨0, 0⟩ (pageAddr 0 0) 4096]).map
        (fun w => w.log) = some [⟨1, 0, allocEntry 0 ⟨0, 1⟩⟩, ⟨2, 0, allocEntry 0 ⟨1, 3⟩⟩,
          ⟨2, 1, freeEntry 0 ⟨0, 1⟩⟩] := by decide
  rw [run] at log
  have reached := World.reachable_of_calls (System.Reachable.init World.fresh_initial) run
  obtain ⟨flips, marks, _⟩ := delegation_log_refines _ (fun _ => rfl) w reached 0
  exact ⟨w, run, Option.some.inj log, flips, marks⟩

section Drain

/-- The ring that took a record. -/
def ringOf (r : LogRecord) : Nat × Nat := (r.process, r.core)

/-- The record is about page `p` of the arena of `core`. -/
def about (core p : Nat) (r : LogRecord) : Bool :=
  decide (r.entry.srcCpu = core) && (changeOf r.entry).span.has p

/-- The operation of the last record about a page. -/
def lastOp (core p : Nat) (log : List LogRecord) : Option SharedArenaLogOp :=
  lastKind (about core p) (fun r => r.entry.op) log

theorem marksAfter_iff (core p : Nat) (log : List LogRecord) :
    marksAfter core log p = true ↔ lastOp core p log = some .alloc := by
  have relevant : (ledgerOf core log).filter (fun c => c.span.has p) =
      (log.filter (about core p)).map (fun r => changeOf r.entry) := by
    unfold ledgerOf about
    rw [List.filter_map, List.filter_filter]
    congr 1
    apply List.filter_congr
    intro r _
    exact Bool.and_comm _ _
  unfold marksAfter lastOp lastKind
  rw [replay_eq_last, relevant, List.getLast?_map]
  cases (log.filter (about core p)).getLast? with
  | none => simp [clear]
  | some r => simp [changeOf]

theorem lastOp_none_of_fifo {log drained : List LogRecord} (fifo : FifoOrder ringOf log drained)
    (core p : Nat) : lastOp core p drained = none ↔ lastOp core p log = none := by
  unfold lastOp lastKind
  simp only [Option.map_eq_none_iff, List.getLast?_eq_none_iff, List.filter_eq_nil_iff, fifo.mem_iff]

/-- A drain marks a page rightly exactly when the last record about it in the drain is of the same
kind as the last one appended to any ring. -/
theorem marks_right_iff {env : Nat → EnvCache} (kernel : KernelMode env) {w : World}
    (reached : (World.system env).Reachable w) {drained : List LogRecord}
    (fifo : FifoOrder ringOf w.log drained) (core p : Nat) :
    (marksAfter core drained p = true ↔ w.HeldPage core p) ↔
      lastOp core p drained = lastOp core p w.log := by
  have exact_ := (World.reachable_exact kernel reached core).marks p
  rw [marksAfter_iff] at exact_
  have same := lastOp_none_of_fifo fifo core p
  rw [marksAfter_iff, ← exact_]
  rcases first : lastOp core p drained with - | (_ | _) <;>
    rcases second : lastOp core p w.log with - | (_ | _) <;> simp_all

/-- All interleaved drains of the rings mark a page rightly exactly when, in every ring with a
record about the page, the last such record is of the same kind as the last one appended to
any ring. -/
theorem delegation_drain_iff (env : Nat → EnvCache) (kernel : KernelMode env) (w : World)
    (reached : (World.system env).Reachable w) (core p : Nat) :
    (∀ drained, FifoOrder ringOf w.log drained →
        (marksAfter core drained p = true ↔ w.HeldPage core p)) ↔
      ∀ ring, (w.log.filter (fun r => ringOf r = ring)).filter (about core p) ≠ [] →
        lastOp core p (w.log.filter (fun r => ringOf r = ring)) = lastOp core p w.log := by
  refine Iff.trans ?_ lastKind_fifo_iff
  constructor
  · intro right drained fifo
    exact (marks_right_iff kernel reached fifo core p).mp (right drained fifo)
  · intro agree drained fifo
    exact (marks_right_iff kernel reached fifo core p).mpr (agree drained fifo)

end Drain

/-- A thread that stays on core 0 retrieves, stores and retrieves a page: every drain is right. -/
theorem delegation_drain_iff_same_core :
    ∃ w, World.fresh.calls (fun _ => ⟨false, false⟩) [.retrieve 1 0 ⟨0, 0⟩ 4000 16 80,
        .store 1 0 (some 0) ⟨0, 0⟩ (pageAddr 0 0) 4096,
        .retrieve 1 0 ⟨0, 0⟩ 4000 16 80] = some w ∧
      ∀ drained, FifoOrder ringOf w.log drained →
        (marksAfter 0 drained 0 = true ↔ w.HeldPage 0 0) := by
  obtain ⟨w, run⟩ := Option.isSome_iff_exists.mp (show (World.fresh.calls
    (fun _ => ⟨false, false⟩) [.retrieve 1 0 ⟨0, 0⟩ 4000 16 80,
      .store 1 0 (some 0) ⟨0, 0⟩ (pageAddr 0 0) 4096,
      .retrieve 1 0 ⟨0, 0⟩ 4000 16 80]).isSome = true by decide)
  have shape : (World.fresh.calls (fun _ => ⟨false, false⟩) [.retrieve 1 0 ⟨0, 0⟩ 4000 16 80,
      .store 1 0 (some 0) ⟨0, 0⟩ (pageAddr 0 0) 4096, .retrieve 1 0 ⟨0, 0⟩ 4000 16 80]).map
        (fun w => w.log) = some [⟨1, 0, allocEntry 0 ⟨0, 1⟩⟩, ⟨1, 0, freeEntry 0 ⟨0, 1⟩⟩,
          ⟨1, 0, allocEntry 0 ⟨0, 1⟩⟩] := by
    decide
  rw [run] at shape
  have log : w.log = _ := Option.some.inj shape
  have reached := World.reachable_of_calls (System.Reachable.init World.fresh_initial) run
  refine ⟨w, run, (delegation_drain_iff _ (fun _ => rfl) w reached 0 0).mpr ?_⟩
  intro ring mentioned
  rw [log] at mentioned ⊢
  by_cases own : ((1, 0) : Nat × Nat) = ring
  · subst own
    decide
  · exact absurd mentioned (by simp [ringOf, own])

/-- Without migration all records about an arena sit in one ring of one process, and then
every drain is right. -/
theorem delegation_drain_one_ring {env : Nat → EnvCache} (kernel : KernelMode env) {w : World}
    (reached : (World.system env).Reachable w) {core : Nat} (ring : Nat × Nat)
    (single : ∀ r ∈ w.log, r.entry.srcCpu = core → ringOf r = ring) (p : Nat)
    {drained : List LogRecord} (fifo : FifoOrder ringOf w.log drained) :
    marksAfter core drained p = true ↔ w.HeldPage core p := by
  refine (marks_right_iff kernel reached fifo core p).mpr (lastKind_fifo_iff.mpr ?_ drained fifo)
  intro other mentioned
  obtain ⟨r, member⟩ := List.exists_mem_of_ne_nil _ mentioned
  simp only [List.mem_filter, decide_eq_true_eq, about, Bool.and_eq_true] at member
  obtain ⟨⟨inLog, rfl⟩, owner, _⟩ := member
  have same : (w.log.filter (fun s => ringOf s = ringOf r)).filter (about core p) =
      w.log.filter (about core p) := by
    rw [List.filter_filter]
    apply List.filter_congr
    intro s inLog'
    by_cases relevant : about core p s = true
    · have ownerS : s.entry.srcCpu = core := by
        simp only [about, Bool.and_eq_true, decide_eq_true_eq] at relevant
        exact relevant.1
      simp [relevant, single s inLog' ownerS, single r inLog owner]
    · simp [relevant]
  unfold lastKind
  rw [same]

/-- A thread stores a block while it runs on core 1, then retrieves the same page again: a
consumer that drains ring 0 before ring 1 ends with the page unmarked although it is out. -/
theorem delegation_drain_loses_mark :
    ¬∀ (env : Nat → EnvCache) (w : World), KernelMode env → (World.system env).Reachable w →
      ∀ drained, FifoOrder ringOf w.log drained →
        ∀ core p, marksAfter core drained p = true ↔ w.HeldPage core p := by
  intro claim
  obtain ⟨w, run⟩ := Option.isSome_iff_exists.mp (show (World.fresh.calls
    (fun _ => ⟨false, false⟩) [.retrieve 1 0 ⟨0, 0⟩ 4000 16 80,
      .store 1 0 (some 1) ⟨0, 0⟩ (pageAddr 0 0) 4096,
      .retrieve 1 0 ⟨0, 0⟩ 4000 16 80]).isSome = true by decide)
  have shape : (World.fresh.calls (fun _ => ⟨false, false⟩) [.retrieve 1 0 ⟨0, 0⟩ 4000 16 80,
      .store 1 0 (some 1) ⟨0, 0⟩ (pageAddr 0 0) 4096, .retrieve 1 0 ⟨0, 0⟩ 4000 16 80]).map
        (fun w => (w.log, w.held 0)) = some ([⟨1, 0, allocEntry 0 ⟨0, 1⟩⟩,
          ⟨1, 1, freeEntry 0 ⟨0, 1⟩⟩, ⟨1, 0, allocEntry 0 ⟨0, 1⟩⟩], [⟨pageAddr 0 0, 4096⟩]) := by
    decide
  rw [run] at shape
  obtain ⟨log, held⟩ := Prod.mk.inj (Option.some.inj shape)
  have reached := World.reachable_of_calls (System.Reachable.init World.fresh_initial) run
  have order := fifoOrder_last ringOf w.log (1, 1)
  have marked := (claim _ w (fun _ => rfl) reached _ order 0 0).mpr
    ⟨⟨pageAddr 0 0, 4096⟩, by rw [held]; simp, by decide⟩
  rw [log] at marked
  exact absurd marked (by decide)

end Scudo.SharedArena
