import Scudo.Frontend.Runs

/-!
What `reallocate` does to the contents of a chunk. With zero filling and without arenas a block is zero
behind its user range at all times, so growth exposes zeros, in place as well as in a new block, unless
the end of the new range wraps around the address space.
-/

namespace Scudo.Frontend
open Scudo.Secondary
open Scudo.Combined (Origin Backing Settings Backends Call)

/-- Zero filling is configured, no arena serves, and no `reallocate` wraps. -/
def Setup.zeroFilled (f : Setup) : Rules := ⟨ZeroFilling, NoArena f, f.InAddressSpace⟩

/-- The chunk at a place has `newSize` bytes in `s'`: those that `t` had in `s`, and zeros. -/
def Tenant.CarriedOver (s s' : State) (place : Nat) (t : Tenant) (newSize : Nat) : Prop :=
  ∃ t', s'.tenants[place]? = some t' ∧ t'.state = allocated ∧ t'.size = newSize ∧
    (∀ i, i < min t.size newSize → s'.mem (t'.userPtr + i) = s.mem (t.userPtr + i)) ∧
    ∀ i, t.size ≤ i → i < newSize → s'.mem (t'.userPtr + i) = 0

/-- A call without a chunk leaves memory and chunks, every other call carries the contents over. -/
def Tenant.Preserved (s s' : State) (place : Nat) (t : Tenant) (newSize : Nat) :
    Setup.Reallocated → Prop
  | .null _ _ => s'.mem = s.mem ∧ s'.tenants = s.tenants
  | .inPlace _ => t.CarriedOver s s' place newSize
  | .moved _ _ _ _ => t.CarriedOver s s' place newSize

section Contents

variable {f : Setup} {config : CacheConfig} {settings : Settings} {checks : Checks} {b : Backends}
  {s : State} {t : Tenant} {chunk : StoredChunk} {header : Chunk.UnpackedHeader}
  {place newSize alignment oldSize : Nat}

theorem get_set (get : s.tenants[place]? = some t) (u : Tenant) :
    (s.tenants.set place u)[place]? = some u := by
  obtain ⟨lt, -⟩ := List.getElem?_eq_some_iff.mp get
  exact List.getElem?_set_self lt

/-- In place: the rest of the block was zero before. -/
theorem State.Sound.resize_carries (sound : s.Sound f config True) (get : s.tenants[place]? = some t)
    (owned : t.state = allocated) (held : Held f (t.chunk s.mem) header t.size)
    (blockEnd : blockEndOf f (t.chunk s.mem) header = t.blockEnd)
    (fits : t.userPtr + newSize ≤ t.blockEnd) :
    t.CarriedOver s (s.after f place t newSize (.inPlace
      (f.resizeInPlace settings (t.chunk s.mem) header newSize t.blockEnd oldSize))) place newSize := by
  have good := sound.tenants t (List.mem_of_getElem? get)
  have stop : t.blockEnd < 2 ^ f.p.word.bits := blockEnd ▸ held.stop
  have below : t.userPtr + newSize < 2 ^ f.p.word.bits := by omega
  have kept (i : Nat) (inside : i < newSize) :
      (f.resizeInPlace settings (t.chunk s.mem) header newSize t.blockEnd oldSize).bytes
        (t.userPtr + i) = s.mem (t.userPtr + i) :=
    held.resizeInPlace_kept settings below (Nat.le_add_right _ _) (Nat.add_lt_add_left inside _)
  refine ⟨{ t with size := newSize }, get_set get _, owned, rfl, fun i inside => ?_,
    fun i behind inside => ?_⟩
  · exact kept i (lt_of_lt_of_le inside (min_le_right _ _))
  · exact (kept i inside).trans (good.zero trivial _ (by omega) (by omega))

/-- In a new block: the copy ends in zeros of the old block, or where the new block is zero. -/
theorem State.Sound.move_carries (sound : s.Sound f config True) (get : s.tenants[place]? = some t)
    (old : t.size ≤ oldSize) (oldInside : t.userPtr + oldSize ≤ t.blockEnd)
    (held : Held f chunk header newSize)
    (zero : ∀ a, chunk.userPtr ≤ a → a < blockEndOf f chunk header → chunk.bytes a = 0)
    (large : Secondary.Heap) (left : StoredChunk) (freed : Option Nat) :
    t.CarriedOver s (s.after f place t newSize (.moved { chunk with
      bytes := memcpy chunk.bytes chunk.userPtr
        (fun a => s.mem (t.userPtr + (a - chunk.userPtr))) (min newSize oldSize) } large left freed))
      place newSize := by
  have good := sound.tenants t (List.mem_of_getElem? get)
  have inside := held.inside
  have place' := held.place
  obtain ⟨copied, -⟩ := @copied_held f False chunk header newSize held
    (fun a => s.mem (t.userPtr + (a - chunk.userPtr))) (min newSize oldSize)
    (fun filled => filled.elim) (min_le_left _ _)
  have blockEnd := copied.tenant_blockEnd
  rw [blockEndOf_congr rfl] at blockEnd
  have moved (i : Nat) (low : i < newSize) : (s.after f place t newSize (.moved { chunk with
      bytes := memcpy chunk.bytes chunk.userPtr
        (fun a => s.mem (t.userPtr + (a - chunk.userPtr))) (min newSize oldSize) } large left freed)).mem
          (chunk.userPtr + i) = if i < oldSize then s.mem (t.userPtr + i) else 0 := by
    refine (Tenant.overlay_inside ⟨?_, ?_⟩).trans ?_
    · change blockOf f.p chunk.backing ≤ _
      omega
    · rw [blockEnd]
      omega
    · dsimp only
      split_ifs with copies
      · have source : memcpy chunk.bytes chunk.userPtr
            (fun a => s.mem (t.userPtr + (a - chunk.userPtr))) (min newSize oldSize) (chunk.userPtr + i) =
              s.mem (t.userPtr + (chunk.userPtr + i - chunk.userPtr)) := if_pos ⟨by omega, by omega⟩
        rw [source, Nat.add_sub_cancel_left]
      · rw [memcpy_outside _ _ _ _ _ (Or.inr (by omega))]
        exact zero _ (by omega) (by omega)
  refine ⟨_, (List.getElem?_append_left ?_).trans (get_set get _), rfl, rfl, fun i low => ?_,
    fun i behind low => ?_⟩
  · obtain ⟨lt, -⟩ := List.getElem?_eq_some_iff.mp get
    rw [List.length_set]
    exact lt
  · refine (moved i (by omega)).trans (if_pos (by omega))
  · refine (moved i low).trans ?_
    split_ifs
    · exact good.zero trivial _ (by omega) (by omega)
    · rfl

end Contents

/-- The header of the chunk with the marker, as it is before the chunk grows. -/
def grownHeader : Chunk.UnpackedHeader :=
  (defaultSetup Platform.linux64).sealed 0x10040
    ((defaultSetup Platform.linux64).initHeader 6 .memalign 0x10000 0x10040 100)

/-- A primary that has a block is the one that serves. -/
theorem noArena_oneBlock {p : Platform} {block : Nat} {settings : Settings} {call : Call}
    (small : Combined.neededSize p call.size (Combined.raisedAlignment p call.alignment) ≤
      (defaultSetup p).classes.maxSize) :
    NoArena (defaultSetup p) settings (oneBlock p block) call := by
  intro notPrimary
  change Combined.allocateFromPrimary p (defaultSetup p).classes _ call.size
    (Combined.raisedAlignment p call.alignment) = none at notPrimary
  unfold Combined.allocateFromPrimary at notPrimary
  rw [if_pos small] at notPrimary
  cases notPrimary

/-- In every run with zero filling, without arenas and without wrapping, `reallocate` keeps the bytes that
the old and the new size share, and what growth exposes is zero. -/
theorem reallocate_preserves {f : Setup} {config : CacheConfig} (roomy : Roomy f.classes) {s : State}
    (reached : (system f config f.zeroFilled).Reachable s) {place : Nat} {t : Tenant}
    (get : s.tenants[place]? = some t) (owned : t.state = allocated) {settings : Settings}
    {checks : Checks} {b : Backends} {newSize alignment : Nat} {result : Setup.Reallocated}
    (provides : Provides f.p f.classes b) (power : isPowerOfTwo alignment = true)
    (filling : ZeroFilling settings) (fits : f.InAddressSpace t.userPtr newSize)
    (run : f.reallocate settings checks b s.large (t.chunk s.mem) newSize alignment = some result)
    (moves : ∀ chunk large left freed, result = .moved chunk large left freed →
      NoArena f settings b ⟨newSize, alignment, .malloc, false⟩) :
    t.Preserved s (s.after f place t newSize result) place newSize result := by
  have sound : s.Sound f config True := reachable_sound roomy
    ⟨fun _ _ filling => filling, fun _ _ _ _ own => own, fun _ _ fits => fits⟩ reached
  obtain ⟨header, held, -, blockEnd⟩ := (sound.tenants t (List.mem_of_getElem? get)).held
  cases held.reallocates run with
  | refused tooBig => exact ⟨rfl, rfl⟩
  | failed oldSize large oldInside leaves allocates => exact ⟨rfl, rfl⟩
  | inPlace oldSize old oldInside valid inside =>
    rw [blockEnd] at inside ⊢
    have sum : wadd f.p.word.bits t.userPtr newSize = t.userPtr + newSize := wadd_eq (fits valid)
    exact sound.resize_carries get owned held blockEnd (sum ▸ inside)
  | moved oldSize new large old oldInside leaves allocates =>
    obtain ⟨valid, made⟩ := allocate_cases power allocates
    obtain ⟨newHeader, newHeld, -, zero⟩ := made.held roomy provides valid sound.large
    exact sound.move_carries get old (blockEnd ▸ oldInside) newHeld
      (zero filling (moves _ _ _ _ rfl)) large _ _

/-- The chunk with the marker grows by ten bytes in its block. -/
theorem reallocate_preserves_grown :
    ∃ result, (defaultSetup Platform.linux64).reallocate zeroSettings ⟨false, false, 0, 0⟩
        (oneBlock Platform.linux64 0) shiftedState.large (shiftedTenant.chunk shiftedState.mem) 110 16 =
          some result ∧
      shiftedTenant.Preserved shiftedState
        (shiftedState.after (defaultSetup Platform.linux64) 0 shiftedTenant 110 result) 0 110 result := by
  have reached : (system (defaultSetup Platform.linux64) noEntries
      (defaultSetup Platform.linux64).zeroFilled).Reachable shiftedState :=
    shifted_reachable ⟨rfl, rfl⟩ (noArena_oneBlock (by decide))
  have loads : (defaultSetup Platform.linux64).loadHeader 0x10040 shiftedState.mem = some grownHeader := by
    decide +kernel
  have run : (defaultSetup Platform.linux64).reallocate zeroSettings ⟨false, false, 0, 0⟩
      (oneBlock Platform.linux64 0) shiftedState.large (shiftedTenant.chunk shiftedState.mem) 110 16 =
        some (.inPlace ((defaultSetup Platform.linux64).resizeInPlace zeroSettings
          (shiftedTenant.chunk shiftedState.mem) grownHeader 110 0x100C0 100)) :=
    reallocate_inPlace (by decide) (by decide) loads rfl (fun on => absurd on (by decide)) (by decide)
      (by decide) (Or.inl (by decide))
  exact ⟨_, run, reallocate_preserves (defaultSetup_roomy _) reached rfl rfl
    (oneBlock_provides (dvd_zero _) (by decide)) (by decide) ⟨rfl, rfl⟩ (fun _ => by decide) run
    (fun _ _ _ _ same => by cases same)⟩

/-- 256 MB from a pointer in the last 256 MB of 32-bit memory: the call stays in a block of 32 bytes, and
the header of the next chunk is exposed. -/
theorem wrapped_growth_exposes : Roomy (defaultSetup Platform.linux32).classes ∧
    (system (defaultSetup Platform.linux32) noEntries
      ⟨ZeroFilling, NoArena (defaultSetup Platform.linux32), fun _ _ => True⟩).Reachable topState ∧
    ∃ result, (defaultSetup Platform.linux32).reallocate zeroSettings ⟨false, false, 0, 0⟩
        (oneBlock Platform.linux32 0) topState.large ((topTenant 0xF7000000).chunk topState.mem)
          0x10000000 8 = some result ∧
      ¬(topTenant 0xF7000000).Preserved topState (topState.after (defaultSetup Platform.linux32) 0
        (topTenant 0xF7000000) 0x10000000 result) 0 0x10000000 result := by
  refine ⟨defaultSetup_roomy _, top_reachable ⟨rfl, rfl⟩ fun _ => noArena_oneBlock (by decide), _,
    top_wraps, ?_⟩
  rintro ⟨t', get, -, -, -, zero⟩
  cases get
  have exposed := zero 24 (by decide) (by decide)
  exact absurd exposed (by decide +kernel)

end Scudo.Frontend
