import Scudo.Frontend.Tenants

/-!
Runs of the frontend. Chunks are allocated, written to, resized, moved and released in any order, and
from every allocated chunk one finds its block and back, as long as no `reallocate` wraps around the
address space.
-/

namespace Scudo.Frontend
open Scudo.Secondary
open Scudo.Combined (Origin Backing Settings Backends Call)

/-- What stays of a released chunk. -/
def Tenant.kept (t : Tenant) (freed : Option Nat) : List Tenant :=
  if freed = none then [{ t with state := quarantined }] else []

/-- The state after `reallocate` of the chunk at a place. -/
def State.after (f : Setup) (s : State) (place : Nat) (t : Tenant) (newSize : Nat) :
    Setup.Reallocated → State
  | .null old large => ⟨old.bytes, large, s.tenants⟩
  | .inPlace chunk => ⟨chunk.bytes, s.large, s.tenants.set place { t with size := newSize }⟩
  | .moved chunk large old freed =>
    ⟨(f.tenant chunk newSize).overlay f.p chunk.bytes old.bytes, large,
      s.tenants.set place (f.tenant chunk newSize) ++ t.kept freed⟩

/-- The new block is not in use. -/
def State.Unused (f : Setup) (s : State) (chunk : StoredChunk) (size : Nat) : Prop :=
  ∀ u ∈ s.tenants, Tenant.Apart f.p (f.tenant chunk size) u

/-- Which calls a run makes: the settings it has, how new chunks are served, and the sizes that
`reallocate` of a pointer gets. -/
structure Rules where
  settings : Settings → Prop
  serves : Settings → Backends → Call → Prop
  resizes : Nat → Nat → Prop

inductive Step (f : Setup) (config : CacheConfig) (rules : Rules) : State → State → Prop
  | allocate {s : State} (settings : Settings) (b : Backends) (call : Call) (chunk : StoredChunk)
      (large : Secondary.Heap) (provides : Provides f.p f.classes b)
      (power : isPowerOfTwo call.alignment = true) (configured : rules.settings settings)
      (served : rules.serves settings b call)
      (run : f.allocate settings b s.large call = some (some chunk, large))
      (unused : s.Unused f chunk call.size) :
      Step f config rules s
        ⟨(f.tenant chunk call.size).overlay f.p chunk.bytes s.mem, large,
          s.tenants ++ [f.tenant chunk call.size]⟩
  | refuse {s : State} (settings : Settings) (b : Backends) (call : Call) (large : Secondary.Heap)
      (provides : Provides f.p f.classes b) (power : isPowerOfTwo call.alignment = true)
      (run : f.allocate settings b s.large call = some (none, large)) :
      Step f config rules s ⟨s.mem, large, s.tenants⟩
  | write {s : State} (place : Nat) (t : Tenant) (mem : Nat → UInt8)
      (get : s.tenants[place]? = some t) (owned : t.state = allocated)
      (confined : ∀ a, ¬(t.userPtr ≤ a ∧ a < t.userPtr + t.size) → mem a = s.mem a) :
      Step f config rules s ⟨mem, s.large, s.tenants⟩
  | deallocate {s : State} (place : Nat) (t : Tenant) (checks : Checks) (origin : Origin)
      (deleteSize : Nat) (left : StoredChunk) (freed : Option Nat)
      (get : s.tenants[place]? = some t) (owned : t.state = allocated)
      (run : f.deallocate checks (t.chunk s.mem) origin deleteSize = some (left, freed)) :
      Step f config rules s
        ⟨left.bytes, s.large, s.tenants.eraseIdx place ++ t.kept freed⟩
  | recycle {s : State} (place : Nat) (t : Tenant) (left : StoredChunk) (block : Nat)
      (get : s.tenants[place]? = some t) (waits : t.state = quarantined)
      (run : f.recycle (t.chunk s.mem) = some (left, block)) :
      Step f config rules s ⟨left.bytes, s.large, s.tenants.eraseIdx place⟩
  | reallocate {s : State} (place : Nat) (t : Tenant) (settings : Settings) (checks : Checks)
      (b : Backends) (newSize alignment : Nat) (result : Setup.Reallocated)
      (get : s.tenants[place]? = some t) (owned : t.state = allocated)
      (provides : Provides f.p f.classes b) (power : isPowerOfTwo alignment = true)
      (configured : rules.settings settings) (fits : rules.resizes t.userPtr newSize)
      (run : f.reallocate settings checks b s.large (t.chunk s.mem) newSize alignment = some result)
      (moves : ∀ chunk large left freed, result = .moved chunk large left freed →
        rules.serves settings b ⟨newSize, alignment, .malloc, false⟩ ∧ s.Unused f chunk newSize) :
      Step f config rules s (s.after f place t newSize result)
  -- the secondary takes back its blocks, and changes its cache
  | backend {s : State} (large : Secondary.Heap) (moves : Secondary.Heap.Step f.p config s.large large) :
      Step f config rules s ⟨s.mem, large, s.tenants⟩

def system (f : Setup) (config : CacheConfig) (rules : Rules) : Lib.System State where
  init := fun s => Secondary.Heap.Initial config s.large ∧ s.tenants = []
  step := Step f config rules

/-- The end of the new user range is an address, unless the size is refused anyway. -/
def Setup.InAddressSpace (f : Setup) (userPtr newSize : Nat) : Prop :=
  newSize < f.p.word.maxAllowedMallocSize → userPtr + newSize < 2 ^ f.p.word.bits

/-- Any calls at all. -/
def Rules.any : Rules := ⟨fun _ => True, fun _ _ _ => True, fun _ _ => True⟩

/-- No `reallocate` wraps. -/
def Setup.inRange (f : Setup) : Rules := ⟨fun _ => True, fun _ _ _ => True, f.InAddressSpace⟩

section Keeps

variable {f : Setup} {config : CacheConfig} {zeroed : Prop} {settings : Settings} {checks : Checks}
  {b : Backends} {s : State} {t : Tenant} {chunk : StoredChunk} {header : Chunk.UnpackedHeader}
  {place size newSize alignment : Nat} {result : Setup.Reallocated}

/-- A chunk that is held and zero behind its user range makes a good tenant. -/
theorem Setup.tenant_good (held : Held f chunk header size) (state : header.state = allocated)
    (zero : zeroed → ∀ a, chunk.userPtr + size ≤ a → a < blockEndOf f chunk header →
      chunk.bytes a = 0) : (f.tenant chunk size).Good f zeroed chunk.bytes := by
  have blockEnd := held.tenant_blockEnd
  exact ⟨⟨header, held, state, blockEnd.symm⟩,
    fun filled a behind below => zero filled a behind (lt_of_lt_of_eq below blockEnd)⟩

/-- In the memory of the others too. -/
theorem Setup.tenant_overlay_good {mem : Nat → UInt8}
    (good : (f.tenant chunk size).Good f zeroed chunk.bytes) :
    (f.tenant chunk size).Good f zeroed ((f.tenant chunk size).overlay f.p chunk.bytes mem) :=
  good.congr fun _ inside => Tenant.overlay_inside inside

/-- The other places of a list. -/
theorem perm_of_get (get : s.tenants[place]? = some t) :
    s.tenants.Perm ([t] ++ s.tenants.eraseIdx place) := by
  obtain ⟨lt, rfl⟩ := List.getElem?_eq_some_iff.mp get
  exact (List.getElem_cons_eraseIdx_perm lt).symm

theorem perm_of_set (get : s.tenants[place]? = some t) (u : Tenant) :
    (s.tenants.set place u).Perm ([u] ++ s.tenants.eraseIdx place) := by
  obtain ⟨lt, -⟩ := List.getElem?_eq_some_iff.mp get
  exact List.set_perm_cons_eraseIdx lt u

/-- The rest of the tenants is apart from the one at a place. -/
theorem State.Sound.apart_of_get (sound : s.Sound f config zeroed) (get : s.tenants[place]? = some t) :
    ∀ u ∈ s.tenants.eraseIdx place, Tenant.Apart f.p t u := by
  have pairs := ((perm_of_get get).pairwise_iff Tenant.Apart.symm).mp sound.apart
  exact (List.pairwise_cons.mp pairs).1

/-- The memory changed inside one block, which keeps its chunk in another shape or loses it. -/
theorem State.Sound.within {s' : State} {new : List Tenant} (sound : s.Sound f config zeroed)
    (get : s.tenants[place]? = some t) (large : s'.large = s.large)
    (after : s'.tenants.Perm (new ++ s.tenants.eraseIdx place))
    (confined : ∀ a, ¬t.Inside f.p a → s'.mem a = s.mem a)
    (good : ∀ u ∈ new, u.Good f zeroed s'.mem) (one : new.length ≤ 1)
    (same : ∀ u ∈ new, u.backing = t.backing ∧ u.blockEnd = t.blockEnd) :
    s'.Sound f config zeroed := by
  have apart := sound.apart_of_get get
  refine sound.replace (large ▸ sound.large) (perm_of_get get) after ?_ good ?_ ?_
  · intro u _ kept away
    exact kept.frame (away t (List.mem_singleton_self t)) confined
  · match new, one with
    | [], _ => exact List.Pairwise.nil
    | [u], _ => exact List.pairwise_singleton _ u
  · intro u member v other
    obtain ⟨backing, blockEnd⟩ := same u member
    have away := apart v other
    unfold Tenant.Apart at away ⊢
    rw [backing, blockEnd]
    exact away

/-- The user writes to the user range. -/
theorem Tenant.Good.write {mem mem' : Nat → UInt8} (good : t.Good f zeroed mem)
    (confined : ∀ a, ¬(t.userPtr ≤ a ∧ a < t.userPtr + t.size) → mem' a = mem a) :
    t.Good f zeroed mem' := by
  obtain ⟨header, held, state, blockEnd⟩ := good.held
  have held' : Held f (t.chunk mem') header t.size :=
    held.congr fun a _ (below : a < t.userPtr) => confined a (by omega)
  refine ⟨⟨header, held', state, blockEnd⟩, fun filled a behind below => ?_⟩
  rw [confined a (by omega)]
  exact good.zero filled a behind below

/-- A released chunk that stays is in the quarantine. -/
theorem Tenant.Good.kept {mem : Nat → UInt8} (good : t.Good f zeroed mem)
    (held : Held f (t.chunk mem) header t.size)
    (blockEnd : blockEndOf f (t.chunk mem) header = t.blockEnd) (checks : Checks) (asked : Nat) :
    ∀ u ∈ t.kept (f.quarantineOrDeallocateChunk checks (t.chunk mem) header asked).2,
      u.Good f zeroed (f.quarantineOrDeallocateChunk checks (t.chunk mem) header asked).1.bytes := by
  intro u member
  unfold Tenant.kept at member
  split_ifs at member with waits
  · rw [List.mem_singleton.mp member]
    obtain ⟨header', held', classId, state⟩ := (held.released checks asked).1
    refine ⟨⟨header', held', state waits, ?_⟩, fun filled a behind below => ?_⟩
    · rw [← blockEnd]
      exact @blockEndOf_congr f (t.chunk mem) header header' classId _
    · change t.userPtr + t.size ≤ a at behind
      rw [held.released_bytes checks asked (Or.inr (le_trans (Nat.le_add_right _ _) behind))]
      exact good.zero filled a behind below
  · cases member

theorem Tenant.kept_same (freed : Option Nat) : ∀ u ∈ t.kept freed,
    u.backing = t.backing ∧ u.blockEnd = t.blockEnd := by
  intro u member
  unfold Tenant.kept at member
  split_ifs at member
  · rw [List.mem_singleton.mp member]
    exact ⟨rfl, rfl⟩
  · cases member

theorem Tenant.kept_length (freed : Option Nat) : (t.kept freed).length ≤ 1 := by
  unfold Tenant.kept
  split_ifs <;> simp

/-- In front of the pointer is inside of the block. -/
theorem Tenant.outside {a : Nat} (held : Held f (t.chunk s.mem) header t.size)
    (blockEnd : blockEndOf f (t.chunk s.mem) header = t.blockEnd) (outside : ¬t.Inside f.p a) :
    a < blockOf f.p t.backing ∨ t.userPtr ≤ a := by
  have inside : t.userPtr + t.size ≤ t.blockEnd := blockEnd ▸ held.inside
  unfold Tenant.Inside at outside
  omega

theorem State.Sound.deallocate (sound : s.Sound f config zeroed) (get : s.tenants[place]? = some t)
    {origin : Origin} {deleteSize : Nat} {left : StoredChunk} {freed : Option Nat}
    (run : f.deallocate checks (t.chunk s.mem) origin deleteSize = some (left, freed)) :
    State.Sound f config zeroed
      ⟨left.bytes, s.large, s.tenants.eraseIdx place ++ t.kept freed⟩ := by
  have good := sound.tenants t (List.mem_of_getElem? get)
  obtain ⟨header, held, -, blockEnd⟩ := good.held
  obtain ⟨asked, same⟩ := held.deallocated run
  obtain ⟨rfl, rfl⟩ := Prod.mk.inj same
  refine sound.within get rfl List.perm_append_comm ?_ (good.kept held blockEnd checks asked)
    (Tenant.kept_length _) (Tenant.kept_same _)
  intro a outside
  exact held.released_bytes checks asked (Tenant.outside held blockEnd outside)

theorem State.Sound.recycle (sound : s.Sound f config zeroed) (get : s.tenants[place]? = some t)
    {left : StoredChunk} {block : Nat} (run : f.recycle (t.chunk s.mem) = some (left, block)) :
    State.Sound f config zeroed ⟨left.bytes, s.large, s.tenants.eraseIdx place⟩ := by
  obtain ⟨header, held, -, blockEnd⟩ := (sound.tenants t (List.mem_of_getElem? get)).held
  have bytes := (held.recycled run).2
  refine @State.Sound.within _ _ _ _ _ _ _ [] sound get rfl (List.Perm.refl _) ?_
    (fun u member => absurd member List.not_mem_nil) (Nat.zero_le 1)
    (fun u member => absurd member List.not_mem_nil)
  exact fun a outside => bytes a (Tenant.outside held blockEnd outside)

theorem State.Sound.write (sound : s.Sound f config zeroed) (get : s.tenants[place]? = some t)
    {mem : Nat → UInt8}
    (confined : ∀ a, ¬(t.userPtr ≤ a ∧ a < t.userPtr + t.size) → mem a = s.mem a) :
    State.Sound f config zeroed ⟨mem, s.large, s.tenants⟩ := by
  have good := sound.tenants t (List.mem_of_getElem? get)
  obtain ⟨header, held, -, blockEnd⟩ := good.held
  have inside : t.userPtr + t.size ≤ t.blockEnd := blockEnd ▸ held.inside
  have place' : t.userPtr = blockOf f.p t.backing + _ + _ := held.place
  refine @State.Sound.within _ _ _ _ _ _ _ [t] sound get rfl (perm_of_get get) ?_ ?_ (le_refl 1) ?_
  · intro a outside
    unfold Tenant.Inside at outside
    exact confined a (by omega)
  · intro u member
    rw [List.mem_singleton.mp member]
    exact good.write confined
  · intro u member
    rw [List.mem_singleton.mp member]
    exact ⟨rfl, rfl⟩

theorem State.Sound.allocate (sound : s.Sound f config zeroed) {call : Call}
    {large : Secondary.Heap} (roomy : Roomy f.classes) (provides : Provides f.p f.classes b)
    (power : isPowerOfTwo call.alignment = true)
    (fills : zeroed → ZeroFilling settings ∧ NoArena f settings b call)
    (run : f.allocate settings b s.large call = some (some chunk, large))
    (unused : s.Unused f chunk call.size) :
    State.Sound f config zeroed ⟨(f.tenant chunk call.size).overlay f.p chunk.bytes s.mem, large,
      s.tenants ++ [f.tenant chunk call.size]⟩ := by
  obtain ⟨valid, made⟩ := allocate_cases power run
  obtain ⟨header, held, state, zero⟩ := made.held roomy provides valid sound.large
  have good : (f.tenant chunk call.size).Good f zeroed chunk.bytes :=
    Setup.tenant_good held state fun filled a behind below =>
      zero (fills filled).1 (fills filled).2 a (by omega) below
  refine @State.Sound.replace f config zeroed s _ [] [f.tenant chunk call.size] s.tenants sound
    (allocate_reachable provides power sound.large run) (List.Perm.refl _) List.perm_append_comm
    ?_ ?_ (List.pairwise_singleton _ _) ?_
  · intro u member kept _
    exact kept.frame (unused u member) fun a outside => Tenant.overlay_outside outside
  · intro u member
    rw [List.mem_singleton.mp member]
    exact Setup.tenant_overlay_good good
  · intro u member
    rw [List.mem_singleton.mp member]
    exact unused

/-- The chunk stays in its block. -/
theorem State.Sound.resize (sound : s.Sound f config zeroed) (get : s.tenants[place]? = some t)
    (held : Held f (t.chunk s.mem) header t.size) (state : header.state = t.state)
    (blockEnd : blockEndOf f (t.chunk s.mem) header = t.blockEnd) {oldSize : Nat}
    (zeroFill : zeroed → Combined.fillContentsOf settings false = .zeroFill)
    (old : t.size ≤ oldSize) (oldInside : t.userPtr + oldSize ≤ t.blockEnd)
    (fits : t.userPtr + newSize ≤ t.blockEnd) :
    State.Sound f config zeroed
      ⟨(f.resizeInPlace settings (t.chunk s.mem) header newSize t.blockEnd oldSize).bytes, s.large,
        s.tenants.set place { t with size := newSize }⟩ := by
  have good := sound.tenants t (List.mem_of_getElem? get)
  have stop : t.blockEnd < 2 ^ f.p.word.bits := blockEnd ▸ held.stop
  have below : t.userPtr + newSize < 2 ^ f.p.word.bits := by omega
  refine @State.Sound.within _ _ _ _ _ _ _ [{ t with size := newSize }] sound get rfl
    (perm_of_set get _) ?_ ?_ (le_refl 1) ?_
  · intro a outside
    apply held.resizeInPlace_outside settings below (blockEnd.symm ▸ oldInside)
    rw [blockEnd]
    change a < blockOf f.p t.backing ∨ t.blockEnd ≤ a
    unfold Tenant.Inside at outside
    omega
  · intro u member
    rw [List.mem_singleton.mp member]
    obtain ⟨header', held', state', classId⟩ := held.resizeInPlace_held settings oldSize
      (blockEnd.symm ▸ fits)
    rw [blockEnd] at held'
    refine ⟨⟨header', held', state'.trans state, ?_⟩, fun filled a behind inside => ?_⟩
    · exact (@blockEndOf_congr f (t.chunk s.mem) header header' classId _).trans blockEnd
    · exact held.resizeInPlace_zero below (zeroFill filled) old (good.zero filled) behind inside
  · intro u member
    rw [List.mem_singleton.mp member]
    exact ⟨rfl, rfl⟩

/-- A new chunk with a copy of the old contents. -/
theorem copied_held (held : Held f chunk header size) (source : Nat → UInt8) {count : Nat}
    (zero : zeroed → ∀ a, chunk.userPtr ≤ a → a < blockEndOf f chunk header → chunk.bytes a = 0)
    (fits : count ≤ size) :
    Held f { chunk with bytes := memcpy chunk.bytes chunk.userPtr source count } header size ∧
      (zeroed → ∀ a, chunk.userPtr + size ≤ a → a < blockEndOf f chunk header →
        memcpy chunk.bytes chunk.userPtr source count a = 0) := by
  constructor
  · exact held.congr fun a _ below => memcpy_outside _ _ _ _ _ (Or.inl below)
  · intro filled a behind below
    rw [memcpy_outside _ _ _ _ _ (Or.inr (by omega))]
    exact zero filled a (by omega) below

/-- The chunk moves to a new block, and the old one is released. -/
theorem State.Sound.move (sound : s.Sound f config zeroed) (get : s.tenants[place]? = some t)
    (held : Held f (t.chunk s.mem) header t.size)
    (blockEnd : blockEndOf f (t.chunk s.mem) header = t.blockEnd)
    (good : (f.tenant chunk newSize).Good f zeroed chunk.bytes) {large : Secondary.Heap}
    (reached : (Secondary.Heap.system f.p config).Reachable large) (asked : Nat)
    (unused : s.Unused f chunk newSize) :
    State.Sound f config zeroed (s.after f place t newSize (.moved chunk large
      (f.quarantineOrDeallocateChunk checks (t.chunk s.mem) header asked).1
      (f.quarantineOrDeallocateChunk checks (t.chunk s.mem) header asked).2)) := by
  have oldGood := sound.tenants t (List.mem_of_getElem? get)
  have oldMember : t ∈ s.tenants := List.mem_of_getElem? get
  have kept := oldGood.kept held blockEnd checks asked
  have apart := sound.apart_of_get get
  have outside {a : Nat} : ¬t.Inside f.p a →
      (f.quarantineOrDeallocateChunk checks (t.chunk s.mem) header asked).1.bytes a = s.mem a :=
    fun out => held.released_bytes checks asked (Tenant.outside held blockEnd out)
  generalize f.quarantineOrDeallocateChunk checks (t.chunk s.mem) header asked = released at *
  have same := @Tenant.kept_same t released.2
  have others {u : Tenant} (good : u.Good f zeroed released.1.bytes)
      (away : Tenant.Apart f.p (f.tenant chunk newSize) u) :
      u.Good f zeroed ((f.tenant chunk newSize).overlay f.p chunk.bytes released.1.bytes) :=
    good.frame away fun a out => Tenant.overlay_outside out
  have awayKept (u : Tenant) (member : u ∈ t.kept released.2) :
      Tenant.Apart f.p (f.tenant chunk newSize) u := by
    have away := unused t oldMember
    obtain ⟨backing, ends⟩ := same u member
    unfold Tenant.Apart at away ⊢
    rw [backing, ends]
    exact away
  have after : (s.tenants.set place (f.tenant chunk newSize) ++ t.kept released.2).Perm
      ((f.tenant chunk newSize :: t.kept released.2) ++ s.tenants.eraseIdx place) :=
    ((perm_of_set get _).append_right _).trans (List.Perm.cons _ List.perm_append_comm)
  have member_of {u : Tenant} (other : u ∈ s.tenants.eraseIdx place) : u ∈ s.tenants :=
    (List.eraseIdx_sublist _ _).subset other
  refine @State.Sound.replace f config zeroed s _ [t] (f.tenant chunk newSize :: t.kept released.2)
    (s.tenants.eraseIdx place) sound reached (perm_of_get get) after ?_ ?_ ?_ ?_
  · intro u other good _
    exact others (good.frame (apart u other) fun a out => outside out) (unused u (member_of other))
  · intro u member
    rcases List.mem_cons.mp member with rfl | stays
    · exact Setup.tenant_overlay_good good
    · exact others (kept u stays) (awayKept u stays)
  · refine List.pairwise_cons.mpr ⟨awayKept, ?_⟩
    match t.kept released.2, @Tenant.kept_length t released.2 with
    | [], _ => exact List.Pairwise.nil
    | [u], _ => exact List.pairwise_singleton _ u
  · intro u member v other
    rcases List.mem_cons.mp member with rfl | stays
    · exact unused v (member_of other)
    · have away := apart v other
      obtain ⟨backing, ends⟩ := same u stays
      unfold Tenant.Apart at away ⊢
      rw [backing, ends]
      exact away

theorem State.Sound.reallocate (sound : s.Sound f config zeroed) (get : s.tenants[place]? = some t)
    (roomy : Roomy f.classes) (provides : Provides f.p f.classes b)
    (power : isPowerOfTwo alignment = true)
    (filling : zeroed → ZeroFilling settings) (fits : f.InAddressSpace t.userPtr newSize)
    (run : f.reallocate settings checks b s.large (t.chunk s.mem) newSize alignment = some result)
    (moves : ∀ chunk large left freed, result = .moved chunk large left freed →
      (zeroed → NoArena f settings b ⟨newSize, alignment, .malloc, false⟩) ∧
        s.Unused f chunk newSize) : (s.after f place t newSize result).Sound f config zeroed := by
  obtain ⟨header, held, state, blockEnd⟩ := (sound.tenants t (List.mem_of_getElem? get)).held
  cases held.reallocates run with
  | refused tooBig => exact sound
  | failed oldSize large oldInside leaves allocates =>
    exact ⟨allocate_reachable provides power sound.large allocates, sound.tenants, sound.apart⟩
  | inPlace oldSize old oldInside valid inside =>
    rw [blockEnd] at oldInside inside ⊢
    have sum : wadd f.p.word.bits t.userPtr newSize = t.userPtr + newSize := wadd_eq (fits valid)
    exact sound.resize get held state blockEnd (fun filled => (filling filled).contents false) old
      oldInside (sum ▸ inside)
  | moved oldSize new large old oldInside leaves allocates =>
    obtain ⟨own, unused⟩ := moves _ _ _ _ rfl
    obtain ⟨valid, made⟩ := allocate_cases power allocates
    obtain ⟨newHeader, newHeld, newState, zero⟩ := made.held roomy provides valid sound.large
    obtain ⟨copied, copiedZero⟩ := copied_held newHeld
      (fun a => (t.chunk s.mem).bytes (t.userPtr + (a - new.userPtr)))
      (fun filled => zero (filling filled) (own filled)) (min_le_left newSize oldSize)
    exact sound.move get held blockEnd (Setup.tenant_good copied newState copiedZero)
      (allocate_reachable provides power sound.large allocates) oldSize unused

/-- A call that wraps is one that stays in its block, which ends before the new user range. -/
theorem State.Sound.overflows (sound : s.Sound f config zeroed) (get : s.tenants[place]? = some t)
    (wraps : ¬f.InAddressSpace t.userPtr newSize)
    (run : f.reallocate settings checks b s.large (t.chunk s.mem) newSize alignment = some result) :
    (∃ chunk, result = .inPlace chunk) ∧ t.blockEnd < t.userPtr + newSize := by
  obtain ⟨header, held, -, blockEnd⟩ := (sound.tenants t (List.mem_of_getElem? get)).held
  have stop : t.blockEnd < 2 ^ f.p.word.bits := blockEnd ▸ held.stop
  have inside : t.userPtr + t.size ≤ t.blockEnd := blockEnd ▸ held.inside
  obtain ⟨valid, beyond⟩ := Classical.not_imp.mp wraps
  have wide := f.p.word.maxAllowedMallocSize_lt
  have sum := @wadd_ite f.p.word.bits t.userPtr newSize (by omega) (by omega)
  rw [if_neg beyond] at sum
  have stays {oldSize : Nat} (oldInside : t.userPtr + oldSize ≤ blockEndOf f (t.chunk s.mem) header) :
      wadd f.p.word.bits t.userPtr newSize ≤ blockEndOf f (t.chunk s.mem) header ∧
        (oldSize < newSize ∨ oldSize - newSize < f.p.page.bytes) := by
    rw [blockEnd] at oldInside ⊢
    exact ⟨by omega, Or.inl (by omega)⟩
  refine ⟨?_, by omega⟩
  cases held.reallocates run with
  | refused tooBig => exact absurd tooBig (by omega)
  | failed oldSize large oldInside leaves => exact absurd (stays oldInside) leaves
  | inPlace oldSize => exact ⟨_, rfl⟩
  | moved oldSize new large old oldInside leaves => exact absurd (stays oldInside) leaves

end Keeps

section Runs

variable {f : Setup} {config : CacheConfig} {zeroed : Prop} {rules : Rules} {s s' : State}

/-- What the rules promise: with `zeroed`, zero filling and no arenas, and no wrapping in any case. -/
structure Rules.Keep (f : Setup) (zeroed : Prop) (rules : Rules) : Prop where
  filling : zeroed → ∀ settings, rules.settings settings → ZeroFilling settings
  own : zeroed → ∀ settings b call, rules.serves settings b call → NoArena f settings b call
  fits : ∀ userPtr newSize, rules.resizes userPtr newSize → f.InAddressSpace userPtr newSize

theorem Step.sound (roomy : Roomy f.classes) (keep : rules.Keep f zeroed)
    (sound : s.Sound f config zeroed) (step : Step f config rules s s') :
    s'.Sound f config zeroed := by
  cases step with
  | allocate settings b call chunk large provides power configured served run unused =>
    exact sound.allocate roomy provides power (fun filled =>
      ⟨keep.filling filled _ configured, keep.own filled _ _ _ served⟩) run unused
  | refuse settings b call large provides power run =>
    exact ⟨allocate_reachable provides power sound.large run, sound.tenants, sound.apart⟩
  | write place t mem get owned confined => exact sound.write get confined
  | deallocate place t checks origin deleteSize left freed get owned run =>
    exact sound.deallocate get run
  | recycle place t left block get waits run => exact sound.recycle get run
  | reallocate place t settings checks b newSize alignment result get owned provides power configured
      fits run moves =>
    exact sound.reallocate get roomy provides power (fun filled => keep.filling filled _ configured)
      (keep.fits _ _ fits) run fun chunk large left freed same =>
        (moves chunk large left freed same).imp_left fun served filled => keep.own filled _ _ _ served
  | backend large moves => exact ⟨sound.large.step moves, sound.tenants, sound.apart⟩

theorem reachable_sound (roomy : Roomy f.classes) (keep : rules.Keep f zeroed)
    (reached : (system f config rules).Reachable s) : s.Sound f config zeroed := by
  apply reached.invariant
  · rintro s ⟨initial, empty⟩
    refine ⟨Lib.System.Reachable.init initial, ?_, ?_⟩
    · rw [empty]
      exact fun t member => absurd member List.not_mem_nil
    · rw [empty]
      exact List.Pairwise.nil
  · intro s s' sound step
    exact step.sound roomy keep sound

end Runs

section Concrete

/-- The default classes, zero filling, and a primary that has one block. -/
def defaultSetup (p : Platform) : Setup :=
  ⟨p, Combined.fixedSizeClasses Primary.defaultSizeClassConfig, .bsd, fun crc _ => crc, 0⟩

def zeroSettings : Settings := ⟨⟨false, false⟩, .zeroFill, false⟩

def oneBlock (p : Platform) (block : Nat) : Backends :=
  ⟨fun _ => some block, fun _ => 0x5A, quietSurroundings p, fun _ => 0⟩

def emptyState : State := ⟨fun _ => 0, ⟨Cache.init noEntries 0, []⟩, []⟩

theorem defaultSetup_roomy (p : Platform) : Roomy (defaultSetup p).classes :=
  fixedSizeClasses_roomy ⟨by decide, by decide, by decide, by decide⟩ (by decide) (by decide)

theorem oneBlock_provides {p : Platform} {block : Nat} (aligned : p.word.minAlignment ∣ block)
    (low : block + 2 ^ 20 ≤ 2 ^ p.word.bits) :
    Provides p (defaultSetup p).classes (oneBlock p block) := by
  refine ⟨fun classId given le found => ?_, quietSurroundings_sane p⟩
  cases found
  have small := (defaultSetup_roomy p).size_le classId le
  have most := (defaultSetup_roomy p).maxSize_lt
  exact ⟨aligned, by omega⟩

/-- Two chunks of 16 bytes in neighbouring blocks near the end of 32-bit memory. -/
def topChunk (block : Nat) : StoredChunk :=
  (defaultSetup Platform.linux32).primaryChunk (oneBlock Platform.linux32 block)
    ⟨16, 8, .malloc, false⟩ .zeroFill 1 block

def topTenant (block : Nat) : Tenant := (defaultSetup Platform.linux32).tenant (topChunk block) 16

def topState : State where
  mem := (topTenant 0xF7000020).overlay Platform.linux32 (topChunk 0xF7000020).bytes
    ((topTenant 0xF7000000).overlay Platform.linux32 (topChunk 0xF7000000).bytes fun _ => 0)
  large := ⟨Cache.init noEntries 0, []⟩
  tenants := [topTenant 0xF7000000, topTenant 0xF7000020]

theorem top_reachable {rules : Rules} (configured : rules.settings zeroSettings)
    (served : ∀ block,
      rules.serves zeroSettings (oneBlock Platform.linux32 block) ⟨16, 8, .malloc, false⟩) :
    (system (defaultSetup Platform.linux32) noEntries rules).Reachable topState := by
  have start : (system (defaultSetup Platform.linux32) noEntries rules).Reachable
      emptyState := Lib.System.Reachable.init ⟨⟨0, rfl⟩, rfl⟩
  have first := start.step (Step.allocate zeroSettings (oneBlock Platform.linux32 0xF7000000)
    ⟨16, 8, .malloc, false⟩ (topChunk 0xF7000000) _ (oneBlock_provides (by decide) (by decide))
    (by decide) configured (served _) rfl (fun u member => absurd member List.not_mem_nil))
  exact first.step (Step.allocate zeroSettings (oneBlock Platform.linux32 0xF7000020)
    ⟨16, 8, .malloc, false⟩ (topChunk 0xF7000020) _ (oneBlock_provides (by decide) (by decide))
    (by decide) configured (served _) rfl (fun u member => by
      rw [List.mem_singleton.mp member]
      exact Or.inr (by decide)))

/-- What the first chunk has in front. -/
def topHeader : Chunk.UnpackedHeader :=
  (defaultSetup Platform.linux32).sealed 0xF7000008
    ((defaultSetup Platform.linux32).initHeader 1 .malloc 0xF7000000 0xF7000008 16)

/-- 256 MB behind the first chunk lies the beginning of memory, below the end of the block. -/
theorem top_wraps : (defaultSetup Platform.linux32).reallocate zeroSettings ⟨false, false, 0, 0⟩
    (oneBlock Platform.linux32 0) topState.large ((topTenant 0xF7000000).chunk topState.mem) 0x10000000 8 =
      some (.inPlace ((defaultSetup Platform.linux32).resizeInPlace zeroSettings
        ((topTenant 0xF7000000).chunk topState.mem) topHeader 0x10000000 0xF7000020 16)) := by
  have loads : (defaultSetup Platform.linux32).loadHeader 0xF7000008 topState.mem = some topHeader := by
    decide +kernel
  exact reallocate_inPlace (by decide) (by decide) loads rfl (fun _ => rfl) (by decide) (by decide)
    (Or.inl (by decide))

/-- The state after that call, and after the user has cleared eight bytes of the new user range. -/
def topWrapped : State :=
  topState.after (defaultSetup Platform.linux32) 0 (topTenant 0xF7000000) 0x10000000
    (.inPlace ((defaultSetup Platform.linux32).resizeInPlace zeroSettings
      ((topTenant 0xF7000000).chunk topState.mem) topHeader 0x10000000 0xF7000020 16))

def clearedMem : Nat → UInt8 :=
  fun a => if 0xF7000020 ≤ a ∧ a < 0xF7000028 then 0 else topWrapped.mem a

/-- A chunk with an alignment of 64 bytes, so that its block has a marker. -/
def shiftedChunk : StoredChunk :=
  (defaultSetup Platform.linux64).primaryChunk (oneBlock Platform.linux64 0x10000)
    ⟨100, 64, .memalign, false⟩ .zeroFill 6 0x10000

def shiftedTenant : Tenant := (defaultSetup Platform.linux64).tenant shiftedChunk 100

def shiftedState : State where
  mem := shiftedTenant.overlay Platform.linux64 shiftedChunk.bytes fun _ => 0
  large := ⟨Cache.init noEntries 0, []⟩
  tenants := [shiftedTenant]

theorem shifted_reachable {rules : Rules} (configured : rules.settings zeroSettings)
    (served : rules.serves zeroSettings (oneBlock Platform.linux64 0x10000)
      ⟨100, 64, .memalign, false⟩) :
    (system (defaultSetup Platform.linux64) noEntries rules).Reachable shiftedState := by
  have start : (system (defaultSetup Platform.linux64) noEntries rules).Reachable
      emptyState := Lib.System.Reachable.init ⟨⟨0, rfl⟩, rfl⟩
  exact start.step (Step.allocate zeroSettings (oneBlock Platform.linux64 0x10000)
    ⟨100, 64, .memalign, false⟩ shiftedChunk _ (oneBlock_provides (by decide) (by decide))
    (by decide) configured served rfl (fun u member => absurd member List.not_mem_nil))

end Concrete

/-- From an allocated chunk one finds its block, and from the block the chunk. -/
structure Tenant.Navigates (f : Setup) (mem : Nat → UInt8) (t : Tenant) (header : Chunk.UnpackedHeader) :
    Prop where
  loads : f.loadHeader t.userPtr mem = some header
  state : header.state = allocated
  back : f.getBlockBegin t.userPtr header = blockOf f.p t.backing
  forth : f.getChunkFromBlock mem (blockOf f.p t.backing) = (t.userPtr, header, true)
  offset : blockOf f.p t.backing + f.p.word.chunkHeaderSize +
    header.offset.toNat * f.p.word.minAlignment = t.userPtr
  unmarked : blockOf f.p t.backing + f.p.word.chunkHeaderSize = t.userPtr →
    Chunk.load32 mem (blockOf f.p t.backing) ≠ Chunk.blockMarker

/-- As long as no `reallocate` wraps around the address space, every allocated chunk and its block lead
to each other. -/
theorem chunks_and_blocks_agree {f : Setup} {config : CacheConfig} (roomy : Roomy f.classes) {s : State}
    (reached : (system f config f.inRange).Reachable s) :
    ∀ t ∈ s.tenants, t.state = allocated → ∃ header, t.Navigates f s.mem header := by
  have sound : s.Sound f config False :=
    reachable_sound roomy ⟨fun filled => filled.elim, fun filled => filled.elim, fun _ _ fits => fits⟩
      reached
  intro t member owned
  obtain ⟨header, held, state, -⟩ := (sound.tenants t member).held
  have known : header.state ≠ 3 := by
    rw [state, owned]
    decide
  exact ⟨header, held.loads, state.trans owned, held.getBlockBegin_eq, held.getChunkFromBlock_eq known,
    held.place.symm, fun default => held.unmarked known default⟩

/-- The chunk with the marker and its block. -/
theorem chunks_and_blocks_agree_shifted :
    shiftedTenant.userPtr = 0x10040 ∧
      ∃ header, shiftedTenant.Navigates (defaultSetup Platform.linux64) shiftedState.mem header := by
  have reached : (system (defaultSetup Platform.linux64) noEntries
      (defaultSetup Platform.linux64).inRange).Reachable shiftedState :=
    shifted_reachable trivial trivial
  exact ⟨by decide, chunks_and_blocks_agree (defaultSetup_roomy _) reached shiftedTenant
    (List.mem_singleton_self _) rfl⟩

/-- After a `reallocate` that wraps, the user range of the first chunk has the header of the second. -/
theorem neighbour_overwritten : Roomy (defaultSetup Platform.linux32).classes ∧
    ∃ s, (system (defaultSetup Platform.linux32) noEntries Rules.any).Reachable s ∧
      ∃ t ∈ s.tenants, t.state = allocated ∧
        ¬∃ header, t.Navigates (defaultSetup Platform.linux32) s.mem header := by
  have wrapped : (system (defaultSetup Platform.linux32) noEntries Rules.any).Reachable topWrapped :=
    (top_reachable trivial fun _ => trivial).step (Step.reallocate 0 (topTenant 0xF7000000) zeroSettings
      ⟨false, false, 0, 0⟩ (oneBlock Platform.linux32 0) 0x10000000 8 _ rfl rfl
      (oneBlock_provides (dvd_zero _) (by decide)) (by decide) trivial trivial top_wraps
      (fun _ _ _ _ same => by cases same))
  have cleared := wrapped.step (Step.write 0 { topTenant 0xF7000000 with size := 0x10000000 } clearedMem
    rfl rfl (fun a outside => by
      change ¬(0xF7000008 ≤ a ∧ a < 0xF7000008 + 0x10000000) at outside
      exact if_neg (by omega)))
  refine ⟨defaultSetup_roomy _, _, cleared, topTenant 0xF7000020, by simp [topWrapped, topState,
    State.after], rfl, ?_⟩
  rintro ⟨header, navigates⟩
  have loads := navigates.loads
  have zero : Chunk.load64 clearedMem 0xF7000020 = 0 :=
    @Chunk.load64_congr (fun _ => 0) clearedMem 0xF7000020 fun k lt => if_pos ⟨by omega, by omega⟩
  change Chunk.loadHeader .w32 .bsd _ 0 0xF7000028 (Chunk.load64 clearedMem 0xF7000020) = _ at loads
  rw [zero] at loads
  have invalid : Chunk.loadHeader .w32 .bsd (fun crc _ => crc) 0 0xF7000028 0 = none := by
    decide +kernel
  exact absurd (invalid.symm.trans loads) (by simp)

end Scudo.Frontend
