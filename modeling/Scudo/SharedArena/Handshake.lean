import Scudo.Lib.Transition
import Scudo.SharedArena.Operations
import Scudo.SharedArena.Pool

/-!
The handshake of `init`. The processes that map the arena of one core race to move its version
from 0 to 1; the winner writes the header field by field and moves the version to 2, the others
wait for that. Every atomic access of `init` and of the spin lock is a step of its own, and what
`retrieve` and `store` do under the lock is one step.
-/

namespace Scudo.SharedArena
open Scudo.Lib

namespace Handshake

/-- The fields that the winner writes. -/
inductive Field where
  | lock
  | bumpOffsetInPages
  | totalDataPages
  | freeListHeadPageOff
  | freeCount
  | totalDonatedBytes
  | totalRetrievedBytes
  | donateCount
  | retrieveCount
  deriving DecidableEq, Repr

/-- The order of the stores between the two changes of the version. -/
def Field.order : List Field :=
  [.lock, .bumpOffsetInPages, .totalDataPages, .freeListHeadPageOff, .freeCount,
    .totalDonatedBytes, .totalRetrievedBytes, .donateCount, .retrieveCount]

/-- The store of one field; the lock word is not part of the record. -/
def Field.assign (page : PageSize) (hdr : SharedArenaHeader) : Field → SharedArenaHeader
  | .lock => hdr
  | .bumpOffsetInPages => { hdr with bumpOffsetInPages := 0 }
  | .totalDataPages => { hdr with totalDataPages := totalDataPagesOf page }
  | .freeListHeadPageOff => { hdr with freeListHeadPageOff := kFreeListEnd }
  | .freeCount => { hdr with freeCount := 0 }
  | .totalDonatedBytes => { hdr with totalDonatedBytes := 0 }
  | .totalRetrievedBytes => { hdr with totalRetrievedBytes := 0 }
  | .donateCount => { hdr with donateCount := 0 }
  | .retrieveCount => { hdr with retrieveCount := 0 }

/-- All stores of the winner leave the header of a fresh arena. -/
theorem foldl_assign_order (page : PageSize) (hdr : SharedArenaHeader) :
    Field.order.foldl (Field.assign page) hdr = initialHeader page := rfl

/-- The object behind the arena of one core: the two atomic words of its header, the rest of the
header and the data pages. -/
structure Backing where
  version : Nat
  lock : Nat
  mem : ArenaMemory

def Field.write (page : PageSize) (field : Field) (b : Backing) : Backing :=
  { b with
    lock := if field = .lock then 0 else b.lock
    mem := { b.mem with hdr := field.assign page b.mem.hdr } }

/-- A new object has only zero bytes. -/
def zeroFilled : Backing where
  version := 0
  lock := 0
  mem :=
    { hdr := ⟨0, 0, 0, 0, 0, 0, 0, 0⟩
      prevPageOff := fun _ => 0
      nextPageOff := fun _ => 0
      sizeInPages := fun _ => 0
      magic := fun _ => 0 }

/-- A call of a process that has initialised the arena; `logArena` is an arena of another core. -/
inductive Call where
  | retrieve (size alignment headersSize : Nat)
  | store (logArena : Option Arena) (commitBase commitSize : Nat)

/-- Where a process is. -/
inductive Phase where
  | outside
  /-- The object is mapped and the version not touched yet. -/
  | mapped
  /-- The version was moved to 1; the fields are still to be written. -/
  | writing (rest : List Field)
  | waiting
  /-- Before `initLogRing`. -/
  | attaching
  /-- Before `registerWithKernel`. -/
  | registering
  | ready
  | locking (call : Call)
  | working (call : Call)
  /-- Before the lock is given back. -/
  | leaving

/-- What a step did. -/
inductive Event where
  | entered (process : Nat)
  | refused (process : Nat)
  | wrote (process : Nat) (field : Field)
  | published (process : Nat)
  | saw (process : Nat) (version : Nat)
  | returned (process : Nat) (ok : Bool)
  | retrieved (process : Nat) (out : Option Handout)
  | stored (process : Nat) (ok : Bool)
  deriving DecidableEq, Repr

/-- The history has the newest event first. -/
structure State where
  backing : Backing
  object : Nat → Arena
  phase : Nat → Phase
  history : List Event

namespace State

def move (s : State) (process : Nat) (phase : Phase) (events : List Event) : State :=
  { s with
    phase := Function.update s.phase process phase
    history := events ++ s.history }

def setObject (s : State) (process : Nat) (arena : Arena) : State :=
  { s with object := Function.update s.object process arena }

def setBacking (s : State) (b : Backing) : State := { s with backing := b }

def setMem (s : State) (m : ArenaMemory) : State :=
  { s with backing := { s.backing with mem := m } }

@[simp] theorem setObject_phase (s : State) (process : Nat) (arena : Arena) :
    (s.setObject process arena).phase = s.phase := rfl

@[simp] theorem setBacking_phase (s : State) (b : Backing) : (s.setBacking b).phase = s.phase := rfl

@[simp] theorem setMem_phase (s : State) (m : ArenaMemory) : (s.setMem m).phase = s.phase := rfl

end State

end Handshake

namespace Arena

/-- The first stores of `init`. -/
def place (arena : Arena) (core : Nat) : Arena :=
  { arena with
    coreId := core
    baseAddr := wadd 64 kSharedArenaBaseAddr (core * kArenaCapacityPerCore)
    dataBase :=
      wadd 64 (wadd 64 kSharedArenaBaseAddr (core * kArenaCapacityPerCore)) kArenaHeaderSize }

end Arena

namespace Handshake

/-- One atomic step of one process, or writes of users to their data. `init` returns false when
the object cannot be mapped, when the ring cannot, and when the kernel refuses it. -/
inductive Step (page : PageSize) (env : Nat → EnvCache) (core : Nat) : State → State → Prop
  | map {s : State} (p : Nat) (found : s.phase p = .outside) :
      Step page env core s ((s.setObject p ((s.object p).place core)).move p .mapped [])
  | unmapped {s : State} (p : Nat) (found : s.phase p = .outside) :
      Step page env core s
        ((s.setObject p ((s.object p).place core)).move p .outside [.returned p false])
  | enter {s : State} (p : Nat) (found : s.phase p = .mapped) (first : s.backing.version = 0) :
      Step page env core s
        ((s.setBacking { s.backing with version := 1 }).move p (.writing Field.order) [.entered p])
  | refuse {s : State} (p : Nat) (found : s.phase p = .mapped) (late : s.backing.version ≠ 0) :
      Step page env core s (s.move p .waiting [.refused p])
  | write {s : State} (p : Nat) (field : Field) (rest : List Field)
      (found : s.phase p = .writing (field :: rest)) :
      Step page env core s
        ((s.setBacking (field.write page s.backing)).move p (.writing rest) [.wrote p field])
  | publish {s : State} (p : Nat) (found : s.phase p = .writing []) :
      Step page env core s
        ((s.setBacking { s.backing with version := 2 }).move p .attaching [.published p])
  | look {s : State} (p : Nat) (found : s.phase p = .waiting) :
      Step page env core s
        (s.move p (if s.backing.version < 2 then .waiting else .attaching)
          [.saw p s.backing.version])
  | ring {s : State} (p : Nat) (mapped : Bool) (arena : Arena) (found : s.phase p = .attaching)
      (run : (s.object p).initLogRing page mapped s.backing.mem.hdr.totalDataPages =
        (true, arena)) :
      Step page env core s ((s.setObject p arena).move p .registering [])
  | noRing {s : State} (p : Nat) (mapped : Bool) (arena : Arena) (found : s.phase p = .attaching)
      (run : (s.object p).initLogRing page mapped s.backing.mem.hdr.totalDataPages =
        (false, arena)) :
      Step page env core s ((s.setObject p arena).move p .outside [.returned p false])
  | register {s : State} (p : Nat) (found : s.phase p = .registering) :
      Step page env core s
        ((s.setObject p { s.object p with initialized := true }).move p .ready [.returned p true])
  | unregistered {s : State} (p : Nat) (found : s.phase p = .registering) :
      Step page env core s
        ((s.setObject p (s.object p).dropLogRing).move p .outside [.returned p false])
  | call {s : State} (p : Nat) (call : Call) (found : s.phase p = .ready) :
      Step page env core s (s.move p (.locking call) [])
  | acquire {s : State} (p : Nat) (call : Call) (found : s.phase p = .locking call)
      (unlocked : s.backing.lock = 0) :
      Step page env core s ((s.setBacking { s.backing with lock := 1 }).move p (.working call) [])
  | retrieve {s : State} (p : Nat) (size alignment headersSize : Nat) (loads : HeadLoads)
      (result : RetrieveResult)
      (found : s.phase p = .working (.retrieve size alignment headersSize))
      (run : (s.object p).retrieve (env p) page s.backing.mem loads size alignment headersSize =
        some result) :
      Step page env core s
        (((s.setMem result.mem).setObject p result.arena).move p .leaving
          [.retrieved p result.out])
  | store {s : State} (p : Nat) (logArena : Option Arena) (commitBase commitSize : Nat)
      (loads : HeadLoads) (result : StoreResult)
      (found : s.phase p = .working (.store logArena commitBase commitSize))
      (run : (s.object p).store (env p) page logArena s.backing.mem loads commitBase commitSize =
        some result) :
      Step page env core s
        (((s.setMem result.mem).setObject p (if logArena.isNone then result.logArena
          else s.object p)).move p .leaving [.stored p result.ok])
  | release {s : State} (p : Nat) (found : s.phase p = .leaving) :
      Step page env core s ((s.setBacking { s.backing with lock := 0 }).move p .ready [])
  | scribble {s : State} (m : ArenaMemory) (hdr : m.hdr = s.backing.mem.hdr) :
      Step page env core s (s.setMem m)

/-- No process has called `init` yet. -/
structure Initial (s : State) : Prop where
  backing : s.backing = zeroFilled
  phase : ∀ p, s.phase p = .outside
  history : s.history = []

def system (page : PageSize) (env : Nat → EnvCache) (core : Nat) : System State :=
  ⟨Initial, Step page env core⟩

/-! ### What the history must look like -/

/-- The processes that entered the branch which writes the header. -/
def entries : List Event → List Nat
  | [] => []
  | .entered p :: older => p :: entries older
  | _ :: older => entries older

/-- The fields written, the first one first. -/
def written : List Event → List Field
  | [] => []
  | .wrote _ field :: older => written older ++ [field]
  | _ :: older => written older

def Event.process : Event → Nat
  | .entered p | .refused p | .wrote p _ | .published p | .saw p _ | .returned p _
  | .retrieved p _ | .stored p _ => p

/-- The change of the version from 0 to 1, tried with or without success. -/
def Event.Raced : Event → Prop
  | .entered _ | .refused _ => True
  | _ => False

/-- A step of the branch that writes the header. -/
def Event.Rewrites : Event → Prop
  | .entered _ | .wrote _ _ | .published _ => True
  | _ => False

/-- A process has initialised the arena, or works with it. -/
def Event.Attached : Event → Prop
  | .returned _ true | .retrieved _ _ | .stored _ _ => True
  | _ => False

/-- The two loads of the version are not out of order. -/
def Forward : Event → Event → Prop
  | .saw _ later, .saw _ earlier => earlier ≤ later
  | _, _ => True

/-- The header is not written after a process has attached. -/
def Stable (later earlier : Event) : Prop := ¬(later.Rewrites ∧ earlier.Attached)

/-- The process has the lock of the arena. -/
def Phase.Holds : Phase → Prop
  | .working _ | .leaving => True
  | _ => False

/-! ### The three stages of the arena -/

/-- Not yet past the change of the version, or turned away by it. -/
def Phase.Behind : Phase → Prop
  | .outside | .mapped | .waiting => True
  | _ => False

/-- An event of the time before the version is 2. -/
def Event.Quiet : Event → Prop
  | .entered _ | .refused _ | .wrote _ _ => True
  | .saw _ version => version = 1
  | .returned _ ok => ok = false
  | _ => False

inductive Stage (page : PageSize) (s : State) : Prop
  | untouched (version : s.backing.version = 0)
      (phases : ∀ p, s.phase p = .outside ∨ s.phase p = .mapped)
      (events : ∀ e ∈ s.history, ∃ p, e = .returned p false)
  | writing (q : Nat) (rest : List Field) (version : s.backing.version = 1)
      (own : s.phase q = .writing rest) (others : ∀ p, p ≠ q → (s.phase p).Behind)
      (events : ∀ e ∈ s.history, e.Quiet) (entered : entries s.history = [q])
      (author : ∀ e ∈ s.history, e.Rewrites → e.process = q)
      (fields : written s.history ++ rest = Field.order)
      (header : rest.foldl (Field.assign page) s.backing.mem.hdr = initialHeader page)
  | published (q : Nat) (version : s.backing.version = 2)
      (phases : ∀ p rest, s.phase p ≠ .writing rest) (entered : entries s.history = [q])
      (author : ∀ e ∈ s.history, e.Rewrites → e.process = q)
      (fields : written s.history = Field.order)
      (loads : ∀ p v, .saw p v ∈ s.history → v = 1 ∨ v = 2)

section Steps

variable {page : PageSize} {env : Nat → EnvCache} {core : Nat} {s s' : State}

@[simp] theorem move_phase_self (s : State) (p : Nat) (phase : Phase) (events : List Event) :
    (s.move p phase events).phase p = phase := by simp [State.move]

theorem move_phase_of_ne (s : State) {p r : Nat} (differ : r ≠ p) (phase : Phase)
    (events : List Event) : (s.move p phase events).phase r = s.phase r := by
  simp [State.move, differ]

theorem entries_returned {events : List Event} (quiet : ∀ e ∈ events, ∃ p, e = .returned p false) :
    entries events = [] ∧ written events = [] := by
  induction events with
  | nil => exact ⟨rfl, rfl⟩
  | cons e older ih =>
    obtain ⟨p, rfl⟩ := quiet e (List.mem_cons_self ..)
    exact ih fun e member => quiet e (List.mem_cons_of_mem _ member)

/-- The first change of the version opens the stage of the winner. -/
theorem stage_of_untouched (version : s.backing.version = 0)
    (phases : ∀ p, s.phase p = .outside ∨ s.phase p = .mapped)
    (events : ∀ e ∈ s.history, ∃ p, e = .returned p false) (move : Step page env core s s') :
    Stage page s' := by
  have moved : ∀ (p : Nat) (phase : Phase), phase = .outside ∨ phase = .mapped →
      ∀ r, Function.update s.phase p phase r = .outside ∨
        Function.update s.phase p phase r = .mapped := by
    intro p phase early r
    by_cases same : r = p
    · rw [same, Function.update_self]
      exact early
    · rw [Function.update_of_ne same]
      exact phases r
  cases move with
  | map p found => exact .untouched version (moved p _ (Or.inr rfl)) events
  | unmapped p found =>
    exact .untouched version (moved p _ (Or.inl rfl))
      (List.forall_mem_cons.mpr ⟨⟨p, rfl⟩, events⟩)
  | enter p found first =>
    obtain ⟨none, nothing⟩ := entries_returned events
    have quiet : ∀ e ∈ s.history, e.Quiet := by
      intro e member
      obtain ⟨p, rfl⟩ := events e member
      rfl
    refine .writing p Field.order rfl (move_phase_self ..) ?_
      (List.forall_mem_cons.mpr ⟨trivial, quiet⟩) ?_ (List.forall_mem_cons.mpr ⟨fun _ => rfl, ?_⟩)
      ?_ (foldl_assign_order page _)
    · intro r differ
      rw [move_phase_of_ne _ differ]
      rcases phases r with early | early
      · simp [State.setBacking, early, Phase.Behind]
      · simp [State.setBacking, early, Phase.Behind]
    · simp [State.move, State.setBacking, entries, none]
    · intro e member rewrites
      obtain ⟨r, rfl⟩ := events e member
      exact rewrites.elim
    · simp [State.move, State.setBacking, written, nothing]
  | refuse p found late => exact absurd version late
  | scribble m hdr => exact .untouched version phases events
  | write p field rest found => simpa [found] using phases p
  | publish p found => simpa [found] using phases p
  | look p found => simpa [found] using phases p
  | ring p mapped arena found run => simpa [found] using phases p
  | noRing p mapped arena found run => simpa [found] using phases p
  | register p found => simpa [found] using phases p
  | unregistered p found => simpa [found] using phases p
  | call p call found => simpa [found] using phases p
  | acquire p call found unlocked => simpa [found] using phases p
  | retrieve p size alignment headersSize loads result found run => simpa [found] using phases p
  | store p logArena commitBase commitSize loads result found run => simpa [found] using phases p
  | release p found => simpa [found] using phases p

/-- The events of one step do not touch what the history says about the branch. -/
theorem entries_append (older : List Event) {events : List Event}
    (calm : ∀ e ∈ events, ¬e.Rewrites) :
    entries (events ++ older) = entries older ∧ written (events ++ older) = written older := by
  induction events with
  | nil => exact ⟨rfl, rfl⟩
  | cons e events ih =>
    have first := calm e (List.mem_cons_self ..)
    have rest := ih fun e member => calm e (List.mem_cons_of_mem _ member)
    cases e with
    | entered p => exact absurd trivial first
    | wrote p field => exact absurd trivial first
    | _ => exact rest

/-- While the winner writes, it alone changes the header, and the others stay behind. -/
theorem stage_of_writing {q : Nat} {rest : List Field} (version : s.backing.version = 1)
    (own : s.phase q = .writing rest) (others : ∀ p, p ≠ q → (s.phase p).Behind)
    (events : ∀ e ∈ s.history, e.Quiet) (entered : entries s.history = [q])
    (author : ∀ e ∈ s.history, e.Rewrites → e.process = q)
    (fields : written s.history ++ rest = Field.order)
    (header : rest.foldl (Field.assign page) s.backing.mem.hdr = initialHeader page)
    (move : Step page env core s s') : Stage page s' := by
  -- a step of another process that adds quiet events and stays behind
  have follower : ∀ (t : State) (p : Nat) (phase : Phase) (new : List Event), p ≠ q →
      phase.Behind → (∀ e ∈ new, e.Quiet ∧ ¬e.Rewrites) → t.backing = s.backing →
      t.phase = s.phase → t.history = s.history → Stage page (t.move p phase new) := by
    intro t p phase new differ behind calm backing phases history
    obtain ⟨same, nothing⟩ := entries_append s.history fun e member => (calm e member).2
    refine .writing q rest ?_ ?_ ?_ ?_ ?_ ?_ ?_ ?_
    · simp [State.move, backing, version]
    · rw [move_phase_of_ne _ differ.symm, phases, own]
    · intro r differ'
      by_cases mine : r = p
      · rw [mine, move_phase_self]
        exact behind
      · rw [move_phase_of_ne _ mine, phases]
        exact others r differ'
    · intro e member
      simp only [State.move, history, List.mem_append] at member
      rcases member with member | member
      · exact (calm e member).1
      · exact events e member
    · simp only [State.move, history, same, entered]
    · intro e member rewrites
      simp only [State.move, history, List.mem_append] at member
      rcases member with member | member
      · exact absurd rewrites (calm e member).2
      · exact author e member rewrites
    · simp only [State.move, history, nothing, fields]
    · simp only [State.move, backing, header]
  have apart : ∀ {p : Nat} {phase : Phase}, s.phase p = phase → (∀ rest, phase ≠ .writing rest) →
      p ≠ q := by
    intro p phase found notWriting same
    rw [same, own] at found
    exact notWriting rest found.symm
  have winner : ∀ {p : Nat} {rest' : List Field}, s.phase p = .writing rest' →
      p = q ∧ rest' = rest := by
    intro p rest' found
    by_cases same : p = q
    · rw [same, own] at found
      exact ⟨same, by simpa using found.symm⟩
    · have behind := others p same
      rw [found] at behind
      exact behind.elim
  have stuck : ∀ {p : Nat} {phase : Phase}, s.phase p = phase → (∀ rest, phase ≠ .writing rest) →
      ¬phase.Behind → Stage page s' := by
    intro p phase found notWriting ahead
    have behind := others p (apart found notWriting)
    rw [found] at behind
    exact absurd behind ahead
  cases move with
  | map p found => exact follower _ p _ _ (apart found (by simp)) trivial (by simp) rfl rfl rfl
  | unmapped p found =>
    exact follower _ p _ _ (apart found (by simp)) trivial (by simp [Event.Quiet, Event.Rewrites])
      rfl rfl rfl
  | enter p found first => omega
  | refuse p found late =>
    exact follower _ p _ _ (apart found (by simp)) trivial (by simp [Event.Quiet, Event.Rewrites])
      rfl rfl rfl
  | write p field rest' found =>
    obtain ⟨rfl, rfl⟩ := winner found
    refine .writing p rest' version (move_phase_self ..) ?_
      (List.forall_mem_cons.mpr ⟨trivial, events⟩) entered
      (List.forall_mem_cons.mpr ⟨fun _ => rfl, author⟩) ?_ header
    · intro r differ
      rw [move_phase_of_ne _ differ]
      exact others r differ
    · simpa [State.move, State.setBacking, written] using fields
  | publish p found =>
    obtain ⟨rfl, rfl⟩ := winner found
    refine .published p rfl ?_ entered (List.forall_mem_cons.mpr ⟨fun _ => rfl, author⟩) ?_ ?_
    · intro r rest'
      by_cases same : r = p
      · rw [same, move_phase_self]
        simp
      · intro writing
        rw [move_phase_of_ne _ same] at writing
        exact same (winner writing).1
    · simpa [State.move, State.setBacking, written] using fields
    · intro r v member
      have old : Event.saw r v ∈ s.history := by
        simpa [State.move, State.setBacking] using member
      exact Or.inl (events _ old)
  | look p found =>
    have again : (if s.backing.version < 2 then Phase.waiting else .attaching) = .waiting := by
      rw [version]
      rfl
    rw [again]
    exact follower _ p _ _ (apart found (by simp)) trivial
      (by simp [Event.Quiet, Event.Rewrites, version]) rfl rfl rfl
  | scribble m hdr =>
    exact .writing q rest version own others events entered author fields
      (by simpa [State.setMem, hdr])
  | ring p mapped arena found run => exact stuck found (by simp) id
  | noRing p mapped arena found run => exact stuck found (by simp) id
  | register p found => exact stuck found (by simp) id
  | unregistered p found => exact stuck found (by simp) id
  | call p call found => exact stuck found (by simp) id
  | acquire p call found unlocked => exact stuck found (by simp) id
  | retrieve p size alignment headersSize loads result found run => exact stuck found (by simp) id
  | store p logArena commitBase commitSize loads result found run => exact stuck found (by simp) id
  | release p found => exact stuck found (by simp) id

/-- Once the version is 2, no step writes the header as `init` does. -/
theorem stage_of_published {q : Nat} (version : s.backing.version = 2)
    (phases : ∀ p rest, s.phase p ≠ .writing rest) (entered : entries s.history = [q])
    (author : ∀ e ∈ s.history, e.Rewrites → e.process = q)
    (fields : written s.history = Field.order)
    (loads : ∀ p v, .saw p v ∈ s.history → v = 1 ∨ v = 2)
    (move : Step page env core s s') : Stage page s' := by
  have settled : ∀ (t : State) (p : Nat) (phase : Phase) (new : List Event),
      (∀ rest, phase ≠ .writing rest) →
      (∀ e ∈ new, ¬e.Rewrites ∧ ∀ r v, e = .saw r v → v = 1 ∨ v = 2) →
      t.backing.version = 2 → t.phase = s.phase → t.history = s.history →
      Stage page (t.move p phase new) := by
    intro t p phase new notWriting calm version phases' history
    obtain ⟨same, nothing⟩ := entries_append s.history fun e member => (calm e member).1
    refine .published q version ?_ ?_ ?_ ?_ ?_
    · intro r rest
      by_cases mine : r = p
      · rw [mine, move_phase_self]
        exact notWriting rest
      · rw [move_phase_of_ne _ mine, phases']
        exact phases r rest
    · simp only [State.move, history, same, entered]
    · intro e member rewrites
      simp only [State.move, history, List.mem_append] at member
      rcases member with member | member
      · exact absurd rewrites (calm e member).1
      · exact author e member rewrites
    · simp only [State.move, history, nothing, fields]
    · intro r v member
      simp only [State.move, history, List.mem_append] at member
      rcases member with member | member
      · exact (calm _ member).2 r v rfl
      · exact loads r v member
  have calm : ∀ e : Event, ¬e.Rewrites → (∀ r v, e ≠ .saw r v) →
      ∀ e' ∈ [e], ¬e'.Rewrites ∧ ∀ r v, e' = .saw r v → v = 1 ∨ v = 2 := by
    intro e keeps other e' member
    obtain rfl := List.mem_singleton.mp member
    exact ⟨keeps, fun r v same => absurd same (other r v)⟩
  cases move with
  | map p found => exact settled _ p _ _ (by simp) (by simp) version rfl rfl
  | unmapped p found => exact settled _ p _ _ (by simp) (calm _ id (by simp)) version rfl rfl
  | enter p found first => omega
  | refuse p found late => exact settled _ p _ _ (by simp) (calm _ id (by simp)) version rfl rfl
  | write p field rest found => exact absurd found (phases p _)
  | publish p found => exact absurd found (phases p _)
  | look p found =>
    refine settled _ p _ _ ?_ ?_ version rfl rfl
    · rw [version]
      simp
    · intro e member
      obtain rfl := List.mem_singleton.mp member
      refine ⟨id, ?_⟩
      intro r v same
      right
      rw [← (Event.saw.inj same).2, version]
  | ring p mapped arena found run => exact settled _ p _ _ (by simp) (by simp) version rfl rfl
  | noRing p mapped arena found run =>
    exact settled _ p _ _ (by simp) (calm _ id (by simp)) version rfl rfl
  | register p found => exact settled _ p _ _ (by simp) (calm _ id (by simp)) version rfl rfl
  | unregistered p found => exact settled _ p _ _ (by simp) (calm _ id (by simp)) version rfl rfl
  | call p call found => exact settled _ p _ _ (by simp) (by simp) version rfl rfl
  | acquire p call found unlocked => exact settled _ p _ _ (by simp) (by simp) version rfl rfl
  | retrieve p size alignment headersSize loads result found run =>
    exact settled _ p _ _ (by simp) (calm _ id (by simp)) version rfl rfl
  | store p logArena commitBase commitSize loads result found run =>
    exact settled _ p _ _ (by simp) (calm _ id (by simp)) version rfl rfl
  | release p found => exact settled _ p _ _ (by simp) (by simp) version rfl rfl
  | scribble m hdr => exact .published q version phases entered author fields loads

theorem Stage.step (stage : Stage page s) (move : Step page env core s s') : Stage page s' := by
  cases stage with
  | untouched version phases events => exact stage_of_untouched version phases events move
  | writing q rest version own others events entered author fields header =>
    exact stage_of_writing version own others events entered author fields header move
  | published q version phases entered author fields loads =>
    exact stage_of_published version phases entered author fields loads move

/-! ### Order of the events -/

/-- A step adds at most one event, and what the event tells about the version is true. -/
theorem step_history (move : Step page env core s s') :
    s'.history = s.history ∨ ∃ e, s'.history = e :: s.history ∧
      (∀ p v, e = .saw p v → v = s.backing.version) ∧
      (e.Rewrites → s.backing.version = 0 ∨ ∃ p rest, s.phase p = .writing rest) := by
  cases move with
  | map p found => exact Or.inl rfl
  | unmapped p found => exact Or.inr ⟨_, rfl, nofun, nofun⟩
  | enter p found first => exact Or.inr ⟨_, rfl, nofun, fun _ => Or.inl first⟩
  | refuse p found late => exact Or.inr ⟨_, rfl, nofun, nofun⟩
  | write p field rest found => exact Or.inr ⟨_, rfl, nofun, fun _ => Or.inr ⟨p, _, found⟩⟩
  | publish p found => exact Or.inr ⟨_, rfl, nofun, fun _ => Or.inr ⟨p, _, found⟩⟩
  | look p found =>
    refine Or.inr ⟨_, rfl, ?_, nofun⟩
    intro r v same
    exact (Event.saw.inj same).2.symm
  | ring p mapped arena found run => exact Or.inl rfl
  | noRing p mapped arena found run => exact Or.inr ⟨_, rfl, nofun, nofun⟩
  | register p found => exact Or.inr ⟨_, rfl, nofun, nofun⟩
  | unregistered p found => exact Or.inr ⟨_, rfl, nofun, nofun⟩
  | call p call found => exact Or.inl rfl
  | acquire p call found unlocked => exact Or.inl rfl
  | retrieve p size alignment headersSize loads result found run =>
    exact Or.inr ⟨_, rfl, nofun, nofun⟩
  | store p logArena commitBase commitSize loads result found run =>
    exact Or.inr ⟨_, rfl, nofun, nofun⟩
  | release p found => exact Or.inl rfl
  | scribble m hdr => exact Or.inl rfl

theorem Event.Quiet.not_attached {e : Event} (quiet : e.Quiet) : ¬e.Attached := by
  cases e with
  | returned p ok =>
    obtain rfl : ok = false := quiet
    exact id
  | retrieved p out => exact quiet.elim
  | stored p ok => exact quiet.elim
  | _ => exact id

/-- No load has seen more than the version is now. -/
theorem Stage.saw_le (stage : Stage page s) {p v : Nat} (member : .saw p v ∈ s.history) :
    v ≤ s.backing.version := by
  cases stage with
  | untouched version phases events =>
    obtain ⟨r, same⟩ := events _ member
    cases same
  | writing q rest version own others events entered author fields header =>
    have one : v = 1 := events _ member
    omega
  | published q version phases entered author fields loads =>
    have := loads p v member
    omega

/-- Before the version is 2 no process has attached. -/
theorem Stage.not_attached (stage : Stage page s)
    (early : s.backing.version = 0 ∨ ∃ p rest, s.phase p = .writing rest) :
    ∀ e ∈ s.history, ¬e.Attached := by
  cases stage with
  | untouched version phases events =>
    intro e member
    obtain ⟨p, rfl⟩ := events e member
    exact id
  | writing q rest version own others events entered author fields header =>
    intro e member
    exact (events e member).not_attached
  | published q version phases entered author fields loads =>
    rcases early with zero | ⟨p, rest, writing⟩
    · omega
    · exact absurd writing (phases p rest)

/-- The order of the events that the handshake promises. -/
def Ordered (history : List Event) : Prop :=
  history.Pairwise fun later earlier => Forward later earlier ∧ Stable later earlier

theorem Ordered.step (ordered : Ordered s.history) (stage : Stage page s)
    (move : Step page env core s s') : Ordered s'.history := by
  rcases step_history move with same | ⟨e, grown, load, rewrites⟩
  · rw [same]
    exact ordered
  · rw [grown]
    refine List.pairwise_cons.mpr ⟨?_, ordered⟩
    intro earlier member
    refine ⟨?_, ?_⟩
    · cases e with
      | saw p v =>
        cases earlier with
        | saw r u =>
          have now := load p v rfl
          have before := stage.saw_le member
          simp only [Forward]
          omega
        | _ => trivial
      | _ => trivial
    · rintro ⟨again, attached⟩
      exact stage.not_attached (rewrites again) earlier member attached

/-! ### The lock -/

/-- The lock word tells whether a process has the lock, and at most one has it. -/
def Guarded (s : State) : Prop :=
  (s.backing.lock = 0 ∧ ∀ p, ¬(s.phase p).Holds) ∨
    (s.backing.lock = 1 ∧ ∃ p, (s.phase p).Holds ∧ ∀ r, (s.phase r).Holds → r = p)

theorem Guarded.exclusive (guarded : Guarded s) {p r : Nat} (first : (s.phase p).Holds)
    (second : (s.phase r).Holds) : p = r := by
  rcases guarded with ⟨_, free⟩ | ⟨_, holder, _, only⟩
  · exact absurd first (free p)
  · rw [only p first, only r second]

/-- A step that neither takes nor gives back the lock. -/
theorem Guarded.of_same (guarded : Guarded s) (lock : s'.backing.lock = s.backing.lock)
    (holds : ∀ r, (s'.phase r).Holds ↔ (s.phase r).Holds) : Guarded s' := by
  unfold Guarded
  rw [lock]
  simp only [holds]
  exact guarded

theorem holds_update {p : Nat} {phase : Phase} (same : phase.Holds ↔ (s.phase p).Holds) (r : Nat) :
    (Function.update s.phase p phase r).Holds ↔ (s.phase r).Holds := by
  by_cases mine : r = p
  · rw [mine, Function.update_self]
    exact same
  · rw [Function.update_of_ne mine]

theorem Stage.not_holds {q : Nat} {rest : List Field} (stage : Stage page s)
    (own : s.phase q = .writing rest) : ∀ p, ¬(s.phase p).Holds := by
  intro p
  cases stage with
  | untouched version phases events => simpa [own] using phases q
  | writing q' rest' version own' others events entered author fields header =>
    by_cases same : p = q'
    · rw [same, own']
      exact id
    · have behind := others p same
      cases phase : s.phase p with
      | working call =>
        rw [phase] at behind
        exact behind.elim
      | leaving =>
        rw [phase] at behind
        exact behind.elim
      | _ => exact id
  | published q' version phases entered author fields loads => exact absurd own (phases q rest)

/-- The winner clears the lock word while nobody has the lock. -/
theorem Guarded.step (guarded : Guarded s) (stage : Stage page s)
    (move : Step page env core s s') : Guarded s' := by
  cases move with
  | map p found => exact guarded.of_same rfl (holds_update (by simp [found, Phase.Holds]))
  | unmapped p found => exact guarded.of_same rfl (holds_update (by simp [found, Phase.Holds]))
  | enter p found first => exact guarded.of_same rfl (holds_update (by simp [found, Phase.Holds]))
  | refuse p found late => exact guarded.of_same rfl (holds_update (by simp [found, Phase.Holds]))
  | write p field rest found =>
    have free := stage.not_holds found
    have unlocked : s.backing.lock = 0 := by
      rcases guarded with ⟨zero, _⟩ | ⟨_, holder, holds, _⟩
      · exact zero
      · exact absurd holds (free holder)
    refine guarded.of_same ?_ (holds_update (by simp [found, Phase.Holds]))
    simp [State.move, State.setBacking, Field.write, unlocked]
  | publish p found => exact guarded.of_same rfl (holds_update (by simp [found, Phase.Holds]))
  | look p found =>
    refine guarded.of_same rfl (holds_update ?_)
    by_cases early : s.backing.version < 2
    · simp [early, found]
    · simp [early, found, Phase.Holds]
  | ring p mapped arena found run =>
    exact guarded.of_same rfl (holds_update (by simp [found, Phase.Holds]))
  | noRing p mapped arena found run =>
    exact guarded.of_same rfl (holds_update (by simp [found, Phase.Holds]))
  | register p found => exact guarded.of_same rfl (holds_update (by simp [found, Phase.Holds]))
  | unregistered p found => exact guarded.of_same rfl (holds_update (by simp [found, Phase.Holds]))
  | call p call found => exact guarded.of_same rfl (holds_update (by simp [found, Phase.Holds]))
  | acquire p call found unlocked =>
    have free : ∀ r, ¬(s.phase r).Holds := by
      rcases guarded with ⟨_, free⟩ | ⟨locked, _⟩
      · exact free
      · omega
    refine Or.inr ⟨rfl, p, ?_, ?_⟩
    · rw [move_phase_self]
      trivial
    · intro r holds
      by_contra differ
      rw [move_phase_of_ne _ differ] at holds
      exact free r holds
  | retrieve p size alignment headersSize loads result found run =>
    exact guarded.of_same rfl (holds_update (by simp [found, Phase.Holds]))
  | store p logArena commitBase commitSize loads result found run =>
    exact guarded.of_same rfl (holds_update (by simp [found, Phase.Holds]))
  | release p found =>
    have mine : (s.phase p).Holds := by
      rw [found]
      trivial
    refine Or.inl ⟨rfl, ?_⟩
    intro r holds
    by_cases same : r = p
    · rw [same, move_phase_self] at holds
      exact holds
    · rw [move_phase_of_ne _ same] at holds
      exact same (guarded.exclusive holds mine)
  | scribble m hdr => exact guarded.of_same rfl fun _ => Iff.rfl

end Steps

structure Intact (page : PageSize) (s : State) : Prop where
  stage : Stage page s
  ordered : Ordered s.history
  guarded : Guarded s

theorem Intact.init {page : PageSize} {s : State} (start : Initial s) : Intact page s where
  stage := .untouched (by rw [start.backing]; rfl) (fun p => Or.inl (start.phase p)) (by
    intro e member
    rw [start.history] at member
    cases member)
  ordered := by
    rw [start.history]
    exact List.Pairwise.nil
  guarded := Or.inl ⟨by rw [start.backing]; rfl, by simp [start.phase, Phase.Holds]⟩

theorem Intact.step {page : PageSize} {env : Nat → EnvCache} {core : Nat} {s s' : State}
    (intact : Intact page s) (move : Step page env core s s') : Intact page s' where
  stage := intact.stage.step move
  ordered := intact.ordered.step intact.stage move
  guarded := intact.guarded.step intact.stage move

theorem reachable_intact {page : PageSize} {env : Nat → EnvCache} {core : Nat} {s : State}
    (reached : (system page env core).Reachable s) : Intact page s := by
  apply reached.invariant
  · intro s start
    exact Intact.init start
  · intro s s' intact move
    have taken : Step page env core s s' := move
    exact intact.step taken

/-- A process that tried to change the version tells that one process has entered the branch. -/
theorem Stage.single {page : PageSize} {s : State} (stage : Stage page s) {e : Event}
    (member : e ∈ s.history) (raced : e.Raced) : (entries s.history).length = 1 := by
  cases stage with
  | untouched version phases events =>
    obtain ⟨p, rfl⟩ := events e member
    exact raced.elim
  | writing q rest version own others events entered author fields header => rw [entered]; rfl
  | published q version phases entered author fields loads => rw [entered]; rfl

/-- A process that has attached tells that the header is written. -/
theorem Stage.attached {page : PageSize} {s : State} (stage : Stage page s) {e : Event}
    (member : e ∈ s.history) (attached : e.Attached) :
    s.backing.version = 2 ∧ written s.history = Field.order := by
  by_cases early : s.backing.version = 0 ∨ ∃ p rest, s.phase p = .writing rest
  · exact absurd attached (stage.not_attached early e member)
  · cases stage with
    | untouched version phases events => exact absurd (Or.inl version) early
    | writing q rest version own others events entered author fields header =>
      exact absurd (Or.inr ⟨q, rest, own⟩) early
    | published q version phases entered author fields loads => exact ⟨version, fields⟩

/-- One process at most enters the branch that writes the header, and one has once the version was
tried; only that process writes there. Whoever returns from `init`, or works with the arena, finds
version 2 and every field written, and the header is complete when the version becomes 2. The loads
of the waiting loop are 1 or 2 and never go back, the branch takes no step after a process has
attached, and the lock has one owner. -/
theorem init_handshake (page : PageSize) (env : Nat → EnvCache) (core : Nat) {s : State}
    (reached : (system page env core).Reachable s) :
    (entries s.history).length ≤ 1 ∧
      (∀ e ∈ s.history, e.Raced → (entries s.history).length = 1) ∧
      (∀ e ∈ s.history, e.Rewrites → e.process ∈ entries s.history) ∧
      (∀ e ∈ s.history, e.Attached →
        s.backing.version = 2 ∧ written s.history = Field.order) ∧
      (∀ p, s.phase p = .writing [] →
        s.backing.mem.hdr = initialHeader page ∧ s.backing.lock = 0) ∧
      (∀ p v, .saw p v ∈ s.history → v = 1 ∨ v = 2) ∧
      (s.history.Pairwise fun later earlier => Forward later earlier ∧ Stable later earlier) ∧
      ∀ p r, (s.phase p).Holds → (s.phase r).Holds → p = r := by
  obtain ⟨stage, ordered, guarded⟩ := reachable_intact reached
  have complete : ∀ p, s.phase p = .writing [] →
      s.backing.mem.hdr = initialHeader page ∧ s.backing.lock = 0 := by
    intro p own
    refine ⟨?_, ?_⟩
    · cases stage with
      | untouched version phases events => simpa [own] using phases p
      | writing q rest version own' others events entered author fields header =>
        by_cases same : p = q
        · rw [same, own'] at own
          rw [Phase.writing.inj own] at header
          exact header
        · have behind := others p same
          rw [own] at behind
          exact behind.elim
      | published q version phases entered author fields loads => exact absurd own (phases p _)
    · rcases guarded with ⟨zero, _⟩ | ⟨_, holder, holds, _⟩
      · exact zero
      · exact absurd holds (stage.not_holds own holder)
  refine ⟨?_, fun e member raced => stage.single member raced, ?_,
    fun e member attached => stage.attached member attached, complete, ?_, ordered,
    fun p r first second => guarded.exclusive first second⟩
  · cases stage with
    | untouched version phases events => simp [(entries_returned events).1]
    | writing q rest version own others events entered author fields header => simp [entered]
    | published q version phases entered author fields loads => simp [entered]
  · intro e member rewrites
    cases stage with
    | untouched version phases events =>
      obtain ⟨p, rfl⟩ := events e member
      exact rewrites.elim
    | writing q rest version own others events entered author fields header =>
      rw [author e member rewrites, entered]
      exact List.mem_singleton_self q
    | published q version phases entered author fields loads =>
      rw [author e member rewrites, entered]
      exact List.mem_singleton_self q
  · intro p v member
    cases stage with
    | untouched version phases events =>
      obtain ⟨r, same⟩ := events _ member
      cases same
    | writing q rest version own others events entered author fields header =>
      exact Or.inl (events _ member)
    | published q version phases entered author fields loads => exact loads p v member

/-- No process has mapped the object yet. -/
def beforeInit : State where
  backing := zeroFilled
  object := fun _ => ⟨false, 0, 0, 0, ⟨0, 0, 0, 0, 0, 0, 0, 0, 0, fun _ => none⟩, 0, 0, 0, 0⟩
  phase := fun _ => .outside
  history := []

/-- Process 0 wins the race, process 1 comes second and looks at the version once. -/
theorem init_handshake_race :
    ∃ s : State, (system PageSize.small (fun _ => ⟨false, false⟩) 0).Reachable s ∧
      s.history = [.saw 1 1, .refused 1, .entered 0] ∧ (entries s.history).length = 1 := by
  have start : (system PageSize.small (fun _ => ⟨false, false⟩) 0).Reachable beforeInit :=
    .init ⟨rfl, fun _ => rfl, rfl⟩
  have mapped := (start.step (.map 0 rfl)).step (.map 1 rfl)
  have raced := ((mapped.step (.enter 0 rfl rfl)).step (.refuse 1 rfl nofun)).step (.look 1 rfl)
  have single := (init_handshake _ _ _ raced).2.1 (.refused 1) (by decide) trivial
  exact ⟨_, raced, rfl, single⟩

end Handshake

end Scudo.SharedArena
