import Scudo.Lib.Transition
import Scudo.SharedArena.Outcome

/-!
All processes at once. The memory of every arena is shared, each process has its own
objects, and every operation is one step because it runs under the lock of its arena. Next to
what the code keeps, the state records the blocks handed out and not stored since, and the
entries of all log rings in the order in which they were appended.
-/

namespace Scudo.SharedArena
open Scudo.Lib

/-- Commit base and size of a block that a `retrieve` returned. -/
structure Handed where
  base : Nat
  size : Nat
  deriving DecidableEq, Repr

/-- An entry and the ring that took it: every process has one ring for each core. -/
structure LogRecord where
  process : Nat
  core : Nat
  entry : SharedArenaLogEntry
  deriving DecidableEq, Repr

structure World where
  mem : Nat → ArenaMemory
  object : Nat → Nat → Arena
  held : Nat → List Handed
  log : List LogRecord

def recordsOf (process core : Nat) : Option SharedArenaLogEntry → List LogRecord
  | none => []
  | some entry => [⟨process, core, entry⟩]

namespace World

def setObject (object : Nat → Nat → Arena) (process core : Nat) (arena : Arena) :
    Nat → Nat → Arena :=
  fun p c => if p = process ∧ c = core then arena else object p c

/-- `process` calls `retrieve` on the arena of `core`. -/
def retrieve (env : EnvCache) (w : World) (process core : Nat) (loads : HeadLoads)
    (size alignment headersSize : Nat) : Option (Option Handout × World) :=
  match (w.object process core).retrieve env PageSize.small (w.mem core) loads size alignment
      headersSize with
  | none => none
  | some result => some (result.out,
      { mem := Function.update w.mem core result.mem
        object := setObject w.object process core result.arena
        held := match result.out with
          | none => w.held
          | some out =>
              Function.update w.held core (⟨out.commitBase, out.commitSize⟩ :: w.held core)
        log := w.log ++ recordsOf process core result.written })

/-- `process` calls `store` on the arena of `core`; `logCore` names the arena passed as
`LogArena`, `none` being the null pointer. -/
def store (env : EnvCache) (w : World) (process core : Nat) (logCore : Option Nat)
    (loads : HeadLoads) (base size : Nat) : Option (Bool × World) :=
  match (w.object process core).store env PageSize.small (logCore.map (w.object process))
      (w.mem core) loads base size with
  | none => none
  | some result => some (result.ok,
      { mem := Function.update w.mem core result.mem
        object := setObject w.object process (logCore.getD core) result.logArena
        held := if result.ok then
            Function.update w.held core ((w.held core).erase ⟨base, size⟩)
          else w.held
        log := w.log ++ recordsOf process (logCore.getD core) result.written })

/-- The page belongs to a block that its owner may write to. -/
def HeldPage (w : World) (core off : Nat) : Prop :=
  ∃ b ∈ w.held core, b.base ≤ pageAddr core off ∧ pageAddr core off < b.base + b.size

/-- Before any operation: fresh headers, any words in the data pages. -/
structure Initial (w : World) : Prop where
  hdr : ∀ core, (w.mem core).hdr = initialHeader PageSize.small
  placed : ∀ process core, (w.object process core).Placed core
  held : ∀ core, w.held core = []
  log : w.log = []

/-- The object of a process that has initialised the arena of `core` with 4 KB pages. -/
def freshObject (core : Nat) : Arena :=
  (Arena.initLogRing PageSize.small true (totalDataPagesOf PageSize.small)
    { initialized := decide (core < kArenaMaxCores)
      coreId := core
      baseAddr := baseAddrOf core
      dataBase := dataBaseOf core
      logRing := ⟨0, 0, 0, 0, 0, 0, 0, 0, 0, fun _ => none⟩
      logHeadCache := 0
      logTailCache := 0
      logCapacityCache := 0
      logCapacityMask := 0 }).2

/-- Every process has initialised every arena, and nothing has been handed out. -/
def fresh : World where
  mem := fun _ => ⟨initialHeader PageSize.small, fun _ => 0, fun _ => 0, fun _ => 0, fun _ => 0⟩
  object := fun _ => freshObject
  held := fun _ => []
  log := []

theorem fresh_initial : fresh.Initial := by
  refine ⟨fun _ => rfl, ?_, fun _ => rfl, rfl⟩
  intro process core initialized
  exact ⟨by simpa [fresh, freshObject, Arena.initLogRing, PageSize.small, kLogRingHeaderBytes,
    kLogEntryBytes] using initialized, rfl, rfl⟩

/-- One operation of one process, writes of a user to its own blocks, or the replacement of a
process-local object (initialisation, refresh after fork, a consumer moving a ring's head).
`env process` are the settings that the process has read. -/
inductive Step (env : Nat → EnvCache) : World → World → Prop
  | retrieve {w w' : World} (process core : Nat) (loads : HeadLoads)
      (size alignment headersSize : Nat) (out : Option Handout)
      (request : Request size alignment headersSize)
      (run : w.retrieve (env process) process core loads size alignment headersSize =
        some (out, w')) : Step env w w'
  | store {w w' : World} (process core : Nat) (logCore : Option Nat) (loads : HeadLoads)
      (base size : Nat) (ok : Bool) (held : ⟨base, size⟩ ∈ w.held core)
      (run : w.store (env process) process core logCore loads base size = some (ok, w')) :
      Step env w w'
  | scribble {w : World} (core : Nat) (m : ArenaMemory) (hdr : m.hdr = (w.mem core).hdr)
      (frame : ∀ off, ¬w.HeldPage core off →
        m.getFreeBlock off = (w.mem core).getFreeBlock off) :
      Step env w { w with mem := Function.update w.mem core m }
  | replace {w : World} (process core : Nat) (arena : Arena) (placed : arena.Placed core) :
      Step env w { w with object := setObject w.object process core arena }

/-- The arenas of all cores shared by all processes. -/
def system (env : Nat → EnvCache) : System World := ⟨Initial, Step env⟩

end World

/-- The block that the span `x` is to its user. -/
def handedOf (core : Nat) (x : Span) : Handed := ⟨pageAddr core x.start, x.len * 4096⟩

theorem handedOf_injective (core : Nat) : Function.Injective (handedOf core) := by
  rintro ⟨start, len⟩ ⟨start', len'⟩ same
  simp only [handedOf, Handed.mk.injEq] at same
  have sameStart := pageAddr_inj same.1
  simp only [Span.mk.injEq]
  omega

/-- The memory of one arena represents `e`, and `e` holds the blocks that are out. -/
structure Tracks (w : World) (core : Nat) (e : Extents arenaPages) : Prop where
  rep : Represents (w.mem core) e
  held : w.held core = e.held.map (handedOf core)

/-- Every arena is tracked by some bookkeeping. -/
structure Sound (w : World) : Prop where
  tracks : ∀ core, ∃ e, Tracks w core e
  placed : ∀ process core, (w.object process core).Placed core

/-- How the held spans of one arena change in a step, and the entry that tells so. -/
inductive HeldChange (core : Nat) (e e' : Extents arenaPages) : Option SharedArenaLogEntry → Prop
  | same (same : e'.held = e.held) : HeldChange core e e' none
  | alloc (x : Span) (grown : e'.held = x :: e.held) :
      HeldChange core e e' (some (allocEntry core x))
  | free (x : Span) (member : x ∈ e.held) (shrunk : e'.held = e.held.erase x) :
      HeldChange core e e' (some (freeEntry core x))

/-- The effect of one operation of `process` on the arena of `core` that logs to `ring`. -/
structure Effect (env : EnvCache) (w w' : World) (process core ring : Nat)
    (e e' : Extents arenaPages) (change written : Option SharedArenaLogEntry) : Prop where
  tracks : Tracks w' core e'
  mem : ∀ other, other ≠ core → w'.mem other = w.mem other
  held : ∀ other, other ≠ core → w'.held other = w.held other
  placed : ∀ process core, (w'.object process core).Placed core
  changed : HeldChange core e e' change
  logged : w'.log = w.log ++ recordsOf process ring written
  kernel : env.allowNoKernel = false → written = change

theorem placed_setObject {object : Nat → Nat → Arena} {process core : Nat} {arena : Arena}
    (placed : ∀ p c, (object p c).Placed c) (new : arena.Placed core) :
    ∀ p c, (World.setObject object process core arena p c).Placed c := by
  intro p c
  unfold World.setObject
  by_cases same : p = process ∧ c = core
  · rw [if_pos same, same.2]
    exact new
  · rw [if_neg same]
    exact placed p c

section Effects

variable {w : World} {process core : Nat} {e : Extents arenaPages}

/-- An operation that leaves memory for `e'` and the matching held blocks has an effect. -/
theorem effect_of (placed : ∀ process core, (w.object process core).Placed core)
    {env : EnvCache} {ring : Nat} {e' : Extents arenaPages} {m : ArenaMemory} {arena : Arena}
    {held : Nat → List Handed} {change written : Option SharedArenaLogEntry}
    (rep : Represents m e') (own : held core = e'.held.map (handedOf core))
    (others : ∀ other, other ≠ core → held other = w.held other) (new : arena.Placed ring)
    (changed : HeldChange core e e' change)
    (kernel : env.allowNoKernel = false → written = change) :
    Effect env w
      { mem := Function.update w.mem core m
        object := World.setObject w.object process ring arena
        held := held
        log := w.log ++ recordsOf process ring written } process core ring e e' change written where
  tracks := ⟨by simpa using rep, own⟩
  mem := fun other differ => by simp [differ]
  held := others
  placed := placed_setObject placed new
  changed := changed
  logged := rfl
  kernel := kernel

/-- A `retrieve` ends, and its effect is a change of the held spans that is logged. -/
theorem Tracks.retrieve (tracks : Tracks w core e) (process : Nat)
    (placed : ∀ process core, (w.object process core).Placed core) (env : EnvCache)
    (loads : HeadLoads) {size alignment headersSize : Nat}
    (request : Request size alignment headersSize) :
    ∃ out w' e' change written,
      w.retrieve env process core loads size alignment headersSize = some (out, w') ∧
        Effect env w w' process core core e e' change written ∧
        (out = none → written = none ∧ w'.held = w.held) := by
  obtain ⟨result, run, outcome⟩ :=
    tracks.rep.retrieve (placed process core) request env loads
  unfold World.retrieve
  rw [run]
  cases outcome with
  | idle idle =>
    exact ⟨_, _, e, none, none, rfl, effect_of placed tracks.rep tracks.held (fun _ _ => rfl)
      (placed process core) (HeldChange.same rfl) (fun _ => rfl), fun _ => ⟨rfl, rfl⟩⟩
  | exhausted initialized short =>
    exact ⟨_, _, e, none, none, rfl, effect_of placed tracks.rep tracks.held (fun _ _ => rfl)
      (placed process core) (HeldChange.same rfl) (fun _ => rfl), fun _ => ⟨rfl, rfl⟩⟩
  | leaked initialized available misfit m' x e' takes rep =>
    -- the pages are neither free nor handed out any more
    have forgotten : Represents m' (e'.forget x) := ⟨rep.total, rep.bump, rep.free⟩
    have held : w.held core = (e'.forget x).held.map (handedOf core) := by
      rw [takes.forget_held]
      exact tracks.held
    exact ⟨_, _, e'.forget x, none, none, rfl, effect_of placed forgotten held (fun _ _ => rfl)
      (placed process core) (HeldChange.same takes.forget_held) (fun _ => rfl),
      fun _ => ⟨rfl, rfl⟩⟩
  | unlogged initialized available fits arena' counters =>
    exact ⟨_, _, e, none, none, rfl, effect_of placed tracks.rep tracks.held (fun _ _ => rfl)
      ((placed process core).of_identity counters.identity) (HeldChange.same rfl) (fun _ => rfl),
      fun _ => ⟨rfl, rfl⟩⟩
  | handed initialized available fits m' x e' takes rep arena' written append =>
    refine ⟨_, _, e', some (allocEntry core x), written, rfl, effect_of placed rep ?_ ?_
      ((placed process core).of_identity append.identity) (HeldChange.alloc x takes.held_eq)
      (append.written_eq rfl), ?_⟩
    · simp only [Function.update_self]
      rw [takes.held_eq, List.map_cons, tracks.held]
      rfl
    · intro other differ
      simp [differ]
    · intro none
      cases none

/-- A `store` of a block that is out ends, and its effect is a change of the held spans that
is logged. -/
theorem Tracks.store (tracks : Tracks w core e) (process : Nat)
    (placed : ∀ process core, (w.object process core).Placed core) (env : EnvCache)
    (logCore : Option Nat) (loads : HeadLoads) {base size : Nat}
    (held : ⟨base, size⟩ ∈ w.held core) :
    ∃ ok w' e' change written,
      w.store env process core logCore loads base size = some (ok, w') ∧
        Effect env w w' process core (logCore.getD core) e e' change written ∧
        (ok = false → written = none ∧ w'.held = w.held) := by
  rw [tracks.held] at held
  obtain ⟨x, member, shape⟩ := List.mem_map.mp held
  obtain ⟨rfl, rfl⟩ : pageAddr core x.start = base ∧ x.len * 4096 = size := by
    simpa [handedOf] using shape
  have ringObject : (logCore.map (w.object process)).getD (w.object process core) =
      w.object process (logCore.getD core) := by
    cases logCore <;> rfl
  obtain ⟨result, run, outcome⟩ := tracks.rep.store (placed process core) member env
    (logCore.map (w.object process)) loads
  have ringPlaced := placed process (logCore.getD core)
  rw [ringObject] at outcome
  have shrunk : (w.held core).erase (handedOf core x) = (e.held.erase x).map (handedOf core) := by
    rw [tracks.held, List.map_erase (handedOf_injective core)]
  have own : Function.update w.held core ((w.held core).erase (handedOf core x)) core =
      (e.held.erase x).map (handedOf core) := by
    rw [Function.update_self, shrunk]
  have others : ∀ other, other ≠ core →
      Function.update w.held core ((w.held core).erase (handedOf core x)) other = w.held other :=
    fun other differ => Function.update_of_ne differ _ _
  unfold World.store
  rw [run]
  cases outcome with
  | idle idle =>
    exact ⟨_, _, e, none, none, rfl, effect_of placed tracks.rep tracks.held (fun _ _ => rfl)
      ringPlaced (HeldChange.same rfl) (fun _ => rfl), fun _ => ⟨rfl, rfl⟩⟩
  | unlogged log' counters =>
    exact ⟨_, _, e, none, none, rfl, effect_of placed tracks.rep tracks.held (fun _ _ => rfl)
      (ringPlaced.of_identity counters.identity) (HeldChange.same rfl) (fun _ => rfl),
      fun _ => ⟨rfl, rfl⟩⟩
  | kept disabled m' rep log' written append =>
    exact ⟨_, _, e.forget x, some (freeEntry core x), written, rfl, effect_of placed rep own others
      (ringPlaced.of_identity append.identity) (HeldChange.free x member rfl)
      (append.written_eq rfl), nofun⟩
  | freed enabled m' rep log' written append =>
    exact ⟨_, _, e.giveBack x member, some (freeEntry core x), written, rfl,
      effect_of placed rep own others (ringPlaced.of_identity append.identity)
      (HeldChange.free x member rfl) (append.written_eq rfl), nofun⟩

/-- A change of words outside the free blocks keeps what the memory represents. -/
theorem Represents.congr {m m' : ArenaMemory} {capacity : Nat} {e : Extents capacity}
    (rep : Represents m e) (hdr : m'.hdr = m.hdr)
    (frame : ∀ b ∈ e.free, m'.getFreeBlock b.start = m.getFreeBlock b.start) :
    Represents m' e := by
  have words : ∀ b ∈ e.free, m'.prevPageOff b.start = m.prevPageOff b.start ∧
      m'.nextPageOff b.start = m.nextPageOff b.start ∧
      m'.sizeInPages b.start = m.sizeInPages b.start ∧ m'.magic b.start = m.magic b.start := by
    intro b member
    simpa [ArenaMemory.getFreeBlock] using frame b member
  refine ⟨hdr ▸ rep.total, hdr ▸ rep.bump, hdr ▸ rep.free.head, hdr ▸ rep.free.count, ?_, ?_, ?_⟩
  · apply rep.free.linked.congr
    · intro off member
      obtain ⟨b, memberB, rfl⟩ := List.mem_map.mp member
      exact (words b memberB).2.1
    · intro off member
      obtain ⟨b, memberB, rfl⟩ := List.mem_map.mp member
      exact (words b memberB).1
  · intro b member
    rw [(words b member).2.2.1, rep.free.size b member]
  · intro b member
    rw [(words b member).2.2.2, rep.free.magic b member]

/-- Free pages are not pages of a block that is out. -/
theorem Tracks.not_heldPage (tracks : Tracks w core e) {b : Span} (free : b ∈ e.free) {off : Nat}
    (inside : b.has off = true) : ¬w.HeldPage core off := by
  rintro ⟨block, held, above, below⟩
  rw [tracks.held] at held
  obtain ⟨x, member, rfl⟩ := List.mem_map.mp held
  have apart := e.free_apart_held free member
  have positive := e.nonempty x (List.mem_append_right _ member)
  rw [Span.has_iff] at inside
  simp only [handedOf] at above below
  unfold pageAddr at above below
  unfold Span.Apart Span.stop at *
  omega

end Effects

namespace World

variable {env : Nat → EnvCache} {w w' : World}

theorem Initial.sound (initial : w.Initial) : Sound w := by
  refine ⟨fun core => ⟨Extents.empty, ⟨?_, ?_, ?_⟩, ?_⟩, initial.placed⟩
  · rw [initial.hdr]
    rfl
  · rw [initial.hdr]
    rfl
  · constructor
    · rw [initial.hdr]
      rfl
    · rw [initial.hdr]
      rfl
    · trivial
    · intro b member
      cases member
    · intro b member
      cases member
  · rw [initial.held]
    rfl

/-- What a step can do: act on one arena, or leave every bookkeeping as it is. -/
theorem Step.cases (step : Step env w w') (sound : Sound w) :
    (∃ process core ring e e' change written, Tracks w core e ∧
        Effect (env process) w w' process core ring e e' change written) ∨
      (∀ core e, Tracks w core e → Tracks w' core e) ∧ w'.held = w.held ∧ w'.log = w.log ∧
        ∀ process core, (w'.object process core).Placed core := by
  cases step with
  | retrieve process core loads size alignment headersSize out request run =>
    obtain ⟨e, tracks⟩ := sound.tracks core
    obtain ⟨out', w'', e', change, written, run', effect, _⟩ :=
      tracks.retrieve process sound.placed (env process) loads request
    rw [run] at run'
    cases run'
    exact Or.inl ⟨process, core, core, e, e', change, written, tracks, effect⟩
  | store process core logCore loads base size ok held run =>
    obtain ⟨e, tracks⟩ := sound.tracks core
    obtain ⟨ok', w'', e', change, written, run', effect, _⟩ :=
      tracks.store process sound.placed (env process) logCore loads held
    rw [run] at run'
    cases run'
    exact Or.inl ⟨process, core, _, e, e', change, written, tracks, effect⟩
  | scribble core m hdr frame =>
    refine Or.inr ⟨?_, rfl, rfl, sound.placed⟩
    intro other e tracks
    by_cases same : other = core
    · subst same
      have kept : Represents m e := by
        apply tracks.rep.congr hdr
        intro b member
        apply frame
        apply tracks.not_heldPage member
        have positive := e.nonempty b (List.mem_append_left _ member)
        rw [Span.has_iff]
        unfold Span.stop
        omega
      exact ⟨by simpa using kept, tracks.held⟩
    · exact ⟨by simpa [same] using tracks.rep, tracks.held⟩
  | replace process core arena placed =>
    refine Or.inr ⟨?_, rfl, rfl, placed_setObject sound.placed placed⟩
    intro other e tracks
    exact ⟨tracks.rep, tracks.held⟩

theorem Step.sound (step : Step env w w') (sound : Sound w) : Sound w' := by
  rcases step.cases sound with
    ⟨process, core, ring, e, e', change, written, _, effect⟩ | ⟨kept, _, _, placed⟩
  · refine ⟨?_, effect.placed⟩
    intro other
    by_cases same : other = core
    · exact ⟨e', same ▸ effect.tracks⟩
    · obtain ⟨eOther, tracks⟩ := sound.tracks other
      exact ⟨eOther, effect.mem other same ▸ tracks.rep,
        (effect.held other same).trans tracks.held⟩
  · refine ⟨?_, placed⟩
    intro core
    obtain ⟨e, tracks⟩ := sound.tracks core
    exact ⟨e, kept core e tracks⟩

/-- Every reachable state is tracked by bookkeeping that cannot overlap. -/
theorem reachable_sound (reached : (system env).Reachable w) : Sound w := by
  apply reached.invariant
  · intro s initial
    exact Initial.sound initial
  · intro s s' sound step
    exact step.sound sound

/-- One call of a process, with the heads that its log append would load. -/
inductive Call
  | retrieve (process core : Nat) (loads : HeadLoads) (size alignment headersSize : Nat)
  | store (process core : Nat) (logCore : Option Nat) (loads : HeadLoads) (base size : Nat)

/-- Run one call; `none` when the caller does not keep its side of the contract. -/
def call (env : Nat → EnvCache) (w : World) : Call → Option World
  | .retrieve process core loads size alignment headersSize =>
      if Request size alignment headersSize then
        (w.retrieve (env process) process core loads size alignment headersSize).map Prod.snd
      else none
  | .store process core logCore loads base size =>
      if ⟨base, size⟩ ∈ w.held core then
        (w.store (env process) process core logCore loads base size).map Prod.snd
      else none

def calls (env : Nat → EnvCache) : World → List Call → Option World
  | w, [] => some w
  | w, first :: rest => (w.call env first).bind fun w => w.calls env rest

theorem step_of_call {c : Call} (run : w.call env c = some w') : Step env w w' := by
  cases c with
  | retrieve process core loads size alignment headersSize =>
    simp only [call] at run
    split_ifs at run with request
    obtain ⟨⟨out, w''⟩, result, rfl⟩ := Option.map_eq_some_iff.mp run
    exact Step.retrieve process core loads size alignment headersSize out request result
  | store process core logCore loads base size =>
    simp only [call] at run
    split_ifs at run with held
    obtain ⟨⟨ok, w''⟩, result, rfl⟩ := Option.map_eq_some_iff.mp run
    exact Step.store process core logCore loads base size ok held result

/-- A list of calls ends in a reachable state. -/
theorem reachable_of_calls {list : List Call} (reached : (system env).Reachable w)
    (run : w.calls env list = some w') : (system env).Reachable w' := by
  induction list generalizing w with
  | nil =>
    cases run
    exact reached
  | cons first rest ih =>
    obtain ⟨middle, step, run⟩ := Option.bind_eq_some_iff.mp run
    exact ih (reached.step (step_of_call step)) run

end World

end Scudo.SharedArena
