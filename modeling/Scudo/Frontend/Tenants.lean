import Mathlib.Data.List.Perm.Basic
import Scudo.Frontend.Placement
import Scudo.Lib.Transition

/-!
Chunks that share one memory. Their blocks are apart, so an operation that stays inside one block leaves
what the others say.
-/

namespace Scudo.Frontend
open Scudo.Secondary
open Scudo.Combined (Origin Backing Settings Backends Call)

/-- A chunk in memory, with the size that was asked for last, the end of its block, and whether it is
allocated or in the quarantine. -/
structure Tenant where
  userPtr : Nat
  backing : Backing
  size : Nat
  blockEnd : Nat
  state : BitVec 2

structure State where
  mem : Nat → UInt8
  large : Secondary.Heap
  tenants : List Tenant

def Tenant.chunk (t : Tenant) (mem : Nat → UInt8) : StoredChunk := ⟨t.userPtr, t.backing, mem⟩

/-- The class is read where the header is. -/
def Setup.tenant (f : Setup) (chunk : StoredChunk) (size : Nat) : Tenant where
  userPtr := chunk.userPtr
  backing := chunk.backing
  size := size
  blockEnd := blockEndOf f chunk (Chunk.unpack
    (Chunk.load64 chunk.bytes (wsub f.p.word.bits chunk.userPtr f.p.word.chunkHeaderSize)))
  state := allocated

namespace Tenant

def Inside (p : Platform) (t : Tenant) (a : Nat) : Prop := blockOf p t.backing ≤ a ∧ a < t.blockEnd

instance (p : Platform) (t : Tenant) : DecidablePred (t.Inside p) :=
  fun _ => inferInstanceAs (Decidable (_ ∧ _))

def Apart (p : Platform) (t u : Tenant) : Prop :=
  t.blockEnd ≤ blockOf p u.backing ∨ u.blockEnd ≤ blockOf p t.backing

/-- The memory with the block of `t` as `bytes` has it. -/
def overlay (p : Platform) (t : Tenant) (bytes mem : Nat → UInt8) : Nat → UInt8 :=
  fun a => if t.Inside p a then bytes a else mem a

/-- The block has its chunk, and where `zeroed` it is zero behind the user range. -/
structure Good (f : Setup) (zeroed : Prop) (mem : Nat → UInt8) (t : Tenant) : Prop where
  held : ∃ header, Held f (t.chunk mem) header t.size ∧ header.state = t.state ∧
    blockEndOf f (t.chunk mem) header = t.blockEnd
  zero : zeroed → ∀ a, t.userPtr + t.size ≤ a → a < t.blockEnd → mem a = 0

variable {f : Setup} {zeroed : Prop} {mem mem' : Nat → UInt8} {t u : Tenant}

theorem Apart.symm {p : Platform} (apart : Apart p t u) : Apart p u t := Or.symm apart

/-- Only the block matters. -/
theorem Good.congr (good : t.Good f zeroed mem) (same : ∀ a, t.Inside f.p a → mem' a = mem a) :
    t.Good f zeroed mem' := by
  obtain ⟨header, held, state, blockEnd⟩ := good.held
  have inside : t.userPtr + t.size ≤ t.blockEnd := blockEnd ▸ held.inside
  have place : t.userPtr = blockOf f.p t.backing + _ + _ := held.place
  have held' : Held f (t.chunk mem') header t.size :=
    held.congr fun a above (below : a < t.userPtr) => same a ⟨above, by omega⟩
  refine ⟨⟨header, held', state, blockEnd⟩, fun filled a behind below => ?_⟩
  rw [same a ⟨by omega, below⟩]
  exact good.zero filled a behind below

/-- What stays inside one block leaves the others. -/
theorem Good.frame (good : u.Good f zeroed mem) (apart : Apart f.p t u)
    (confined : ∀ a, ¬t.Inside f.p a → mem' a = mem a) : u.Good f zeroed mem' := by
  apply good.congr
  intro a inside
  apply confined
  unfold Inside Apart at *
  omega

theorem overlay_inside {p : Platform} {bytes : Nat → UInt8} {a : Nat} (inside : t.Inside p a) :
    t.overlay p bytes mem a = bytes a := if_pos inside

theorem overlay_outside {p : Platform} {bytes : Nat → UInt8} {a : Nat} (outside : ¬t.Inside p a) :
    t.overlay p bytes mem a = mem a := if_neg outside

end Tenant

/-- The end of the block of a chunk that is held. -/
theorem Held.tenant_blockEnd {f : Setup} {chunk : StoredChunk} {header : Chunk.UnpackedHeader} {size : Nat}
    (held : Held f chunk header size) : (f.tenant chunk size).blockEnd = blockEndOf f chunk header := by
  unfold Setup.tenant
  dsimp only
  rw [(loadHeader_packed held.loads).1, Chunk.unpack_pack]

/-- In every state: the secondary is in a state of its own runs, every chunk is held, and the blocks are
apart. -/
structure State.Sound (f : Setup) (config : CacheConfig) (zeroed : Prop) (s : State) : Prop where
  large : (Secondary.Heap.system f.p config).Reachable s.large
  tenants : ∀ t ∈ s.tenants, t.Good f zeroed s.mem
  apart : s.tenants.Pairwise (Tenant.Apart f.p)

/-- Some chunks come in the place of others, and the rest of them keeps its blocks. -/
theorem State.Sound.replace {f : Setup} {config : CacheConfig} {zeroed : Prop} {s s' : State}
    {old new others : List Tenant} (sound : s.Sound f config zeroed)
    (large : (Secondary.Heap.system f.p config).Reachable s'.large)
    (before : s.tenants.Perm (old ++ others)) (after : s'.tenants.Perm (new ++ others))
    (rest : ∀ u ∈ others, u.Good f zeroed s.mem → (∀ t ∈ old, Tenant.Apart f.p t u) →
      u.Good f zeroed s'.mem)
    (good : ∀ t ∈ new, t.Good f zeroed s'.mem) (apart : new.Pairwise (Tenant.Apart f.p))
    (away : ∀ t ∈ new, ∀ u ∈ others, Tenant.Apart f.p t u) : s'.Sound f config zeroed := by
  have pairs := (before.pairwise_iff Tenant.Apart.symm).mp sound.apart
  obtain ⟨-, othersApart, cross⟩ := List.pairwise_append.mp pairs
  have kept (u : Tenant) (other : u ∈ others) : u.Good f zeroed s.mem :=
    sound.tenants u (before.mem_iff.mpr (List.mem_append_right old other))
  refine ⟨large, fun t member => ?_, ?_⟩
  · rcases List.mem_append.mp (after.mem_iff.mp member) with fresh | other
    · exact good t fresh
    · exact rest t other (kept t other) fun u gone => cross u gone t other
  · rw [after.pairwise_iff Tenant.Apart.symm, List.pairwise_append]
    exact ⟨apart, othersApart, away⟩

end Scudo.Frontend
