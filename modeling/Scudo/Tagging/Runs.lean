import Scudo.Frontend.Runs
import Scudo.Lib.Transition
import Scudo.Primary.PageReleaseSound
import Scudo.Tagging.Lifecycle

/-!
Runs of the blocks of one class while memory tagging is enabled. Chunks are allocated, resized, released
and recycled in any order, users write wherever the tag of their pointer lets them, and the pages of free
blocks are given back to the system.
-/

namespace Scudo.Tagging
open Scudo.Lib MemoryTags Config
open Scudo.Secondary (FillContentsMode)
open Scudo.Combined (Origin Settings Call)
open Scudo.Frontend (Setup Checks allocated quarantined)

/-- Who has a block. Of a released chunk the pointer and the size are kept, and whether the chunk was
retagged. -/
inductive Tenancy where
  | unused
  | allocated (ptr size : Nat)
  | quarantined (ptr size : Nat) (retagged : Bool)
  | released (ptr size : Nat) (retagged : Bool)
  | batch (size : Nat)

structure Heap where
  mem : Memory
  blocks : Nat → Tenancy

namespace Heap

def Free (s : Heap) (k : Nat) : Prop :=
  s.blocks k = .unused ∨ ∃ ptr size retagged, s.blocks k = .released ptr size retagged

def put (s : Heap) (mem : Memory) (k : Nat) (t : Tenancy) : Heap :=
  ⟨mem, Function.update s.blocks k t⟩

@[simp] theorem put_blocks_self (s : Heap) (mem : Memory) (k : Nat) (t : Tenancy) :
    (s.put mem k t).blocks k = t :=
  Function.update_self ..

end Heap

variable (c : Config)

/-- With `stray`, users write to any granule that has a tag at all, otherwise through the pointers of
allocated chunks to their own blocks. -/
inductive Step (stray : Prop) : Heap → Heap → Prop
  | allocate {s : Heap} (k start : Nat) (call : Call) (settings : Settings)
      (stack : Option (BitVec 32 × BitVec 32)) (mem : Memory) (ptr : Nat) (inside : k < c.count)
      (free : s.Free k) (valid : call.Valid c.f.p)
      (room : Combined.neededSize c.f.p call.size (Combined.raisedAlignment c.f.p call.alignment) ≤
        c.blockSize)
      (run : c.initChunkWithMemoryTagging start s.mem call.origin stack (c.block k)
        (Combined.userPtrOf c.f.p (c.block k) (Combined.raisedAlignment c.f.p call.alignment)) call.size
        (Combined.fillContentsOf settings call.zeroContents) = (mem, ptr)) :
      Step stray s (s.put mem k (.allocated ptr call.size))
  | write {s : Heap} (k ptr size : Nat) (bytes : Nat → UInt8) (inside : k < c.count)
      (get : s.blocks k = .allocated ptr size)
      (confined : ∀ a, ¬(c.block k ≤ a ∧ a < c.stop (c.block k) ∧ s.mem.tagAt a = extractTag ptr) →
        bytes a = s.mem.bytes a) :
      Step stray s ⟨⟨s.mem.tags, bytes⟩, s.blocks⟩
  | stray {s : Heap} (bytes : Nat → UInt8) (permitted : stray)
      (confined : ∀ a, s.mem.tagAt a = 0 → bytes a = s.mem.bytes a) :
      Step stray s ⟨⟨s.mem.tags, bytes⟩, s.blocks⟩
  | deallocate {s : Heap} (k ptr size start : Nat) (checks : Checks) (origin : Origin) (deleteSize : Nat)
      (disableMemInit : Bool) (mem : Memory) (freed : Option Nat) (inside : k < c.count)
      (get : s.blocks k = .allocated ptr size)
      (run : c.deallocate checks start s.mem ptr origin deleteSize disableMemInit = some (mem, freed)) :
      Step stray s (s.put mem k (if freed = none then .quarantined ptr size (!disableMemInit)
        else .released ptr size (!disableMemInit)))
  | recycle {s : Heap} (k ptr size : Nat) (retagged : Bool) (mem : Memory) (block : Nat)
      (inside : k < c.count) (get : s.blocks k = .quarantined ptr size retagged)
      (run : c.recycle s.mem (untagPointer ptr) = some (mem, block)) :
      Step stray s (s.put mem k (.released ptr size retagged))
  | resize {s : Heap} (k ptr size newSize : Nat) (checks : Checks) (fill : FillContentsMode)
      (stack : Option (BitVec 32 × BitVec 32)) (mem : Memory) (inside : k < c.count)
      (get : s.blocks k = .allocated ptr size)
      (run : c.reallocateInPlace checks s.mem ptr newSize fill stack = some mem) :
      Step stray s (s.put mem k (.allocated ptr newSize))
  -- the quarantine takes blocks for its batches
  | takeBatch {s : Heap} (k batchSize : Nat) (mem : Memory) (ptr : Nat) (inside : k < c.count)
      (free : s.Free k) (some_ : 0 < batchSize) (room : 16 + batchSize ≤ c.blockSize)
      (run : c.allocateBatch s.mem (c.block k) batchSize = (mem, ptr)) :
      Step stray s (s.put mem k (.batch batchSize))
  | fillBatch {s : Heap} (k batchSize : Nat) (bytes : Nat → UInt8) (inside : k < c.count)
      (get : s.blocks k = .batch batchSize)
      (confined : ∀ a, ¬(c.block k + 16 ≤ a ∧ a < c.block k + 16 + batchSize) → bytes a = s.mem.bytes a) :
      Step stray s ⟨⟨s.mem.tags, bytes⟩, s.blocks⟩
  | dropBatch {s : Heap} (k batchSize : Nat) (mem : Memory) (block : Nat) (inside : k < c.count)
      (get : s.blocks k = .batch batchSize)
      (run : c.deallocateBatch s.mem (c.block k + 16) = some (mem, block)) :
      Step stray s (s.put mem k .unused)
  -- pages of free blocks only, and with one page of a block all that lie in it
  | reclaim {s : Heap} (pages : Nat → Bool)
      (free : ∀ k < c.count, (∃ y, c.block k ≤ y ∧ y < c.stop (c.block k) ∧ pages (c.page y) = true) →
        s.Free k ∧ c.TakesWhole pages (c.block k)) :
      Step stray s ⟨c.reclaim pages s.mem, s.blocks⟩

def system (stray : Prop) : System Heap where
  init := fun s => s.mem = ⟨fun _ => 0, fun _ => 0⟩ ∧ ∀ k, s.blocks k = .unused
  step := Step c stray

section Blocks

variable {c} {stray : Prop} {m m' : Memory} {block k : Nat} {t : Tenancy}

/-- The pointer of a chunk that was retagged has its tag nowhere in the chunk. -/
def Lost (c : Config) (m : Memory) (ptr size block : Nat) (retagged : Bool) : Prop :=
  ∃ tag userPtr, ptr = pointer tag userPtr ∧ tag < 16 ∧ tag ≠ 0 ∧ block + 16 ≤ userPtr ∧
    userPtr + size ≤ c.stop block ∧
    (retagged = true → ∀ x, userPtr ≤ x → x < stopOf userPtr size → m.tagAt x ≠ tag)

/-- What holds of a block, by who has it. -/
def BlockSound (c : Config) (stray : Prop) (m : Memory) (block : Nat) : Tenancy → Prop
  | .unused => c.Reusable stray m block
  | .allocated ptr size => ∃ tag userPtr, ptr = pointer tag userPtr ∧ c.Live m tag userPtr size block
  | .quarantined ptr size retagged => c.Reusable stray m block ∧ Lost c m ptr size block retagged ∧
      ∃ header, c.Holds m block (untagPointer ptr) size quarantined header
  | .released ptr size retagged => c.Reusable stray m block ∧ Lost c m ptr size block retagged
  | .batch size => (∃ header, c.Holds m block (block + 16) size allocated header ∧
      header.originOrWasZeroed = 0) ∧
      0 < size ∧ ∀ x, block + 16 ≤ x → x < block + 16 + size → m.tagAt x = 0

theorem Lost.congr {ptr size : Nat} {retagged : Bool} (lost : Lost c m ptr size block retagged)
    (is : c.IsBlock block)
    (tags : ∀ x, block ≤ x → x < c.stop block → m'.tagAt x = m.tagAt x ∨ m'.tagAt x = 0) :
    Lost c m' ptr size block retagged := by
  obtain ⟨tag, userPtr, rfl, small, nonzero, above, inside, away⟩ := lost
  have last := stopOf_le is.stop_dvd inside
  refine ⟨tag, userPtr, rfl, small, nonzero, above, inside, fun was x low high => ?_⟩
  rcases tags x (by omega) (by omega) with same | gone
  · rw [same]
    exact away was x low high
  · rw [gone]
    exact nonzero.symm

/-- A chunk whose header and tags do not change. -/
theorem Live.congr {tag userPtr size : Nat} (live : c.Live m tag userPtr size block) (is : c.IsBlock block)
    (tags : ∀ x, block ≤ x → x < c.stop block → m'.tagAt x = m.tagAt x)
    (bytes : ∀ x, block ≤ x → x < c.stop block → m.tagAt x = 0 → m'.bytes x = m.bytes x)
    (first : m.tagAt block = 0) : c.Live m' tag userPtr size block := by
  obtain ⟨nonzero, allowed, tagged, header, holds⟩ := live
  obtain ⟨above, inside, -, -, aligned⟩ := holds.bounds
  have blockAligned := is.aligned
  have last := stopOf_le is.stop_dvd inside
  have reach := (stopOf_bounds userPtr size).2.1
  refine ⟨nonzero, allowed, ⟨?_, ?_, ?_, ?_⟩, header, holds.congr ?_ ?_⟩
  · rw [tags _ (by omega) (by omega)]
    exact tagged.front
  · intro x low high
    rw [tags x (by omega) (by omega)]
    exact tagged.inside x low high
  · intro before
    rw [tags _ (by omega) before]
    exact tagged.behind before
  · intro empty before
    have here : stopOf userPtr size = userPtr := by
      rw [empty]
      exact stopOf_zero aligned
    have behind := tagged.behind (by rw [here]; exact before)
    rw [here] at behind
    rw [bytes userPtr (by omega) before behind]
    exact tagged.empty empty before
  · intro x low high
    refine bytes x low (by omega) ?_
    have one : x / 16 = block / 16 := by omega
    unfold Memory.tagAt at first ⊢
    rwa [one]
  · intro x low high
    refine bytes x (by omega) (by omega) ?_
    have one : x / 16 = (userPtr - 16) / 16 := by omega
    have front := tagged.front
    unfold Memory.tagAt at front ⊢
    rwa [one]

/-- Only the block matters. -/
theorem BlockSound.congr (sound : BlockSound c stray m block t) (is : c.IsBlock block)
    (same : m.Same m' block (c.stop block)) (first : m.tagAt block = 0) :
    BlockSound c stray m' block t := by
  have tags : ∀ x, block ≤ x → x < c.stop block → m'.tagAt x = m.tagAt x ∨ m'.tagAt x = 0 :=
    fun x low high => Or.inl (same.tags x low high)
  cases t with
  | unused => exact Reusable.congr sound is same
  | allocated ptr size =>
    obtain ⟨tag, userPtr, rfl, live⟩ := sound
    exact ⟨tag, userPtr, rfl, Live.congr live is same.tags (fun x low high _ => same.bytes x low high) first⟩
  | quarantined ptr size retagged =>
    obtain ⟨reusable, lost, header, holds⟩ := sound
    obtain ⟨above, inside, -⟩ := holds.bounds
    exact ⟨reusable.congr is same, lost.congr is tags, header,
      holds.congr (fun x low _ => same.bytes x low (by omega))
        fun x _ _ => same.bytes x (by omega) (by omega)⟩
  | released ptr size retagged => exact ⟨Reusable.congr sound.1 is same, Lost.congr sound.2 is tags⟩
  | batch size =>
    obtain ⟨⟨header, holds, zeroed⟩, some_, untagged⟩ := sound
    obtain ⟨-, inside, -⟩ := holds.bounds
    refine ⟨⟨header, holds.congr (fun x low _ => same.bytes x low (by omega))
      fun x _ _ => same.bytes x (by omega) (by omega), zeroed⟩, some_, fun x low high => ?_⟩
    rw [same.tags x (by omega) (by omega)]
    exact untagged x low high

/-- What has tag 0 cannot be written to through a tagged pointer: the word at the beginning of the block
and the header. -/
theorem word_kept {bytes : Nat → UInt8} {a x : Nat} (aligned : 16 ∣ a) (tag : m.tagAt a = 0)
    (confined : ∀ a, m.tagAt a = 0 → bytes a = m.bytes a) (low : a ≤ x) (high : x < a + 16) :
    bytes x = m.bytes x := by
  apply confined
  have one : x / 16 = a / 16 := by omega
  unfold Memory.tagAt at tag ⊢
  rwa [one]

theorem BlockSound.strayed {bytes : Nat → UInt8} (sound : BlockSound c stray m block t)
    (is : c.IsBlock block) (permitted : stray) (first : m.tagAt block = 0)
    (confined : ∀ a, m.tagAt a = 0 → bytes a = m.bytes a) :
    BlockSound c stray ⟨m.tags, bytes⟩ block t := by
  have marker : ∀ x, block ≤ x → x < block + 8 → bytes x = m.bytes x :=
    fun x low high => word_kept is.aligned first confined low (by omega)
  have reusable : c.Reusable stray m block → c.Reusable stray ⟨m.tags, bytes⟩ block := by
    intro old
    have above := old.above
    have below := old.below
    have fits := is.below
    have aligned := old.aligned
    have chunk : c.lastChunk ⟨m.tags, bytes⟩ block = c.lastChunk m block := lastChunk_congr marker
    have header : c.lastHeader ⟨m.tags, bytes⟩ block = c.lastHeader m block :=
      lastHeader_congr (by omega) (by omega) chunk fun x low high =>
        word_kept (by omega) old.front confined low (by omega)
    refine ⟨?_, ?_, ?_, ?_, ?_, fun tame => absurd permitted tame⟩
    · rw [chunk]
      exact above
    · rw [chunk]
      exact aligned
    · rw [chunk, header]
      exact below
    · rw [chunk]
      exact old.front
    · rw [chunk, header]
      exact fun x low high tagged => (old.tags x low high tagged).imp_right fun bare =>
        ⟨bare.here, bare.inner⟩
  have tags : ∀ x, block ≤ x → x < c.stop block →
      Memory.tagAt ⟨m.tags, bytes⟩ x = m.tagAt x ∨ Memory.tagAt ⟨m.tags, bytes⟩ x = 0 :=
    fun _ _ _ => Or.inl rfl
  cases t with
  | unused => exact reusable sound
  | allocated ptr size =>
    obtain ⟨tag, userPtr, rfl, live⟩ := sound
    exact ⟨tag, userPtr, rfl, Live.congr live is (fun _ _ _ => rfl) (fun x _ _ => confined x) first⟩
  | quarantined ptr size retagged =>
    obtain ⟨old, lost, header, holds⟩ := sound
    obtain ⟨above, -, -, -, aligned⟩ := holds.bounds
    have front := old.front
    rw [(holds.last (by decide)).1] at front
    exact ⟨reusable old, lost.congr is tags, header, holds.congr marker fun x low high =>
      word_kept (by omega) front confined low (by omega)⟩
  | released ptr size retagged => exact ⟨reusable sound.1, Lost.congr sound.2 is tags⟩
  | batch size =>
    obtain ⟨⟨header, holds, zeroed⟩, some_, untagged⟩ := sound
    refine ⟨⟨header, holds.congr marker fun x low high => ?_, zeroed⟩, some_, untagged⟩
    exact marker x (by omega) (by omega)

theorem BlockSound.reclaimed {pages : Nat → Bool} (sound : BlockSound c stray m block t)
    (is : c.IsBlock block)
    (free : t = .unused ∨ ∃ ptr size retagged, t = .released ptr size retagged)
    (whole : c.TakesWhole pages block) : BlockSound c stray (c.reclaim pages m) block t := by
  obtain rfl | ⟨ptr, size, retagged, rfl⟩ := free
  · exact Reusable.reclaim sound is whole
  · refine ⟨Reusable.reclaim sound.1 is whole, Lost.congr sound.2 is fun x _ _ => ?_⟩
    rw [tagAt_reclaim]
    split_ifs
    · exact Or.inr rfl
    · exact Or.inl rfl

end Blocks

section Region

variable {c} {j k : Nat}

theorem Config.isBlock (inside : k < c.count) : c.IsBlock (c.block k) := by
  have fits := c.fits
  have step : (k + 1) * c.blockSize ≤ c.count * c.blockSize := Nat.mul_le_mul_right _ inside
  rw [Nat.succ_mul] at step
  change c.base + c.count * c.blockSize + _ ≤ _ at fits
  refine ⟨Nat.dvd_add c.base_dvd.1 (Nat.dvd_mul_left_of_dvd c.granules k), Nat.le_add_right _ _, ?_⟩
  unfold stop block
  omega

/-- A block begins where the one before ends. -/
theorem Config.block_succ (c : Config) (k : Nat) : c.stop (c.block k) = c.block (k + 1) := by
  unfold stop block
  rw [Nat.succ_mul, Nat.add_assoc]

theorem Config.stop_le (less : j < k) : c.stop (c.block j) ≤ c.block k := by
  rw [c.block_succ]
  exact Nat.add_le_add_left (Nat.mul_le_mul_right _ less) _

theorem Config.block_lt_stop (c : Config) (k : Nat) : c.block k < c.stop (c.block k) := by
  have room := IsBlock.room c (c.block k)
  omega

/-- Where `allocate` puts the chunk of a block that is large enough. -/
theorem Config.placed {call : Call} (inside : k < c.count) (valid : call.Valid c.f.p)
    (room : Combined.neededSize c.f.p call.size (Combined.raisedAlignment c.f.p call.alignment) ≤
      c.blockSize) :
    c.Placed (c.block k) (Combined.userPtrOf c.f.p (c.block k)
      (Combined.raisedAlignment c.f.p call.alignment)) call.size := by
  have is := isBlock inside
  have below := is.below
  have most := c.blockSize_bounds.2
  have stops : c.stop (c.block k) = c.block k + c.blockSize := rfl
  have placed := Frontend.primary_placed valid (by omega) (c.minAlignment_eq ▸ is.aligned)
    (by rw [c.bits_eq]; omega)
  have above := placed.above
  have aligned := placed.aligned
  have user := placed.user
  rw [c.headerSize_eq] at above
  rw [c.minAlignment_eq] at aligned
  exact ⟨above, aligned, by omega⟩

end Region

/-- In every state. -/
structure Sound (c : Config) (stray : Prop) (s : Heap) : Prop where
  first : ∀ k ≤ c.count, s.mem.tagAt (c.block k) = 0
  tags : ∀ k < c.count, c.AllowedTags s.mem (c.block k)
  blocks : ∀ k < c.count, BlockSound c stray s.mem (c.block k) (s.blocks k)

namespace Sound

variable {c} {stray : Prop} {s : Heap} {k : Nat} {t : Tenancy} {mem : Memory}

/-- An operation inside of one block. -/
theorem put (sound : Sound c stray s) (inside : k < c.count) (keeps : c.Keeps s.mem mem (c.block k))
    (block : BlockSound c stray mem (c.block k) t) : Sound c stray (s.put mem k t) := by
  have apart : ∀ j ≠ k, c.stop (c.block j) ≤ c.block k ∨ c.stop (c.block k) ≤ c.block j := by
    intro j other
    rcases Nat.lt_or_gt_of_ne other with less | greater
    · exact Or.inl (stop_le less)
    · exact Or.inr (stop_le greater)
  have same : ∀ j ≠ k, s.mem.Same mem (c.block j) (c.stop (c.block j)) :=
    fun j other => keeps.confined.same (apart j other)
  refine ⟨fun j le => ?_, fun j lt => ?_, fun j lt => ?_⟩
  · by_cases here : j = k
    · subst here
      exact keeps.first (sound.first j le)
    · have start := (same j here).tags (c.block j) le_rfl (c.block_lt_stop j)
      exact start.trans (sound.first j le)
  · by_cases here : j = k
    · subst here
      exact keeps.tags (sound.tags j lt)
    · intro x low high
      have kept := (same j here).tags x low high
      change mem.tagAt x = 0 ∨ c.Allowed _ (mem.tagAt x)
      rw [kept]
      exact sound.tags j lt x low high
  · change BlockSound c stray mem (c.block j) (Function.update s.blocks k t j)
    by_cases here : j = k
    · subst here
      rw [Function.update_self]
      exact block
    · rw [Function.update_of_ne here]
      exact (sound.blocks j lt).congr (isBlock lt) (same j here) (sound.first j lt.le)

/-- A free block can be used again. -/
theorem reusable (sound : Sound c stray s) (inside : k < c.count) (free : s.Free k) :
    c.Reusable stray s.mem (c.block k) := by
  have block := sound.blocks k inside
  obtain unused | ⟨ptr, size, retagged, released⟩ := free
  · rw [unused] at block
    exact block
  · rw [released] at block
    exact block.1

theorem edge (sound : Sound c stray s) (inside : k < c.count) :
    s.mem.tagAt (c.stop (c.block k)) = 0 := by
  rw [c.block_succ]
  exact sound.first (k + 1) inside

/-- Bytes of one block are written. -/
theorem written {bytes : Nat → UInt8} (sound : Sound c stray s)
    (confined : ∀ a, a < c.block k ∨ c.stop (c.block k) ≤ a → bytes a = s.mem.bytes a)
    (block : BlockSound c stray ⟨s.mem.tags, bytes⟩ (c.block k) (s.blocks k)) :
    Sound c stray ⟨⟨s.mem.tags, bytes⟩, s.blocks⟩ := by
  refine ⟨sound.first, sound.tags, fun j lt => ?_⟩
  by_cases here : j = k
  · exact here ▸ block
  · refine (sound.blocks j lt).congr (isBlock lt) ⟨fun _ _ _ => rfl, fun x low high => confined x ?_⟩
      (sound.first j lt.le)
    rcases Nat.lt_or_gt_of_ne here with less | greater
    · exact Or.inl (high.trans_le (stop_le less))
    · exact Or.inr ((stop_le greater).trans low)

theorem init (start : (system c stray).init s) : Sound c stray s := by
  obtain ⟨mem, blocks⟩ := start
  refine ⟨fun k _ => ?_, fun k _ x _ _ => Or.inl ?_, fun k lt => ?_⟩
  · rw [mem]
    rfl
  · rw [mem]
    rfl
  · rw [blocks, mem]
    exact reusable_fresh (isBlock lt) rfl fun _ _ _ => rfl

theorem reclaimed {pages : Nat → Bool} (sound : Sound c stray s)
    (free : ∀ k < c.count, (∃ y, c.block k ≤ y ∧ y < c.stop (c.block k) ∧ pages (c.page y) = true) →
      s.Free k ∧ c.TakesWhole pages (c.block k)) : Sound c stray ⟨c.reclaim pages s.mem, s.blocks⟩ := by
  refine ⟨fun k le => ?_, fun k lt x low high => ?_, fun k lt => ?_⟩
  · rw [tagAt_reclaim, sound.first k le]
    split_ifs <;> rfl
  · rw [tagAt_reclaim]
    split_ifs
    · exact Or.inl rfl
    · exact sound.tags k lt x low high
  · by_cases touched : ∃ y, c.block k ≤ y ∧ y < c.stop (c.block k) ∧ pages (c.page y) = true
    · obtain ⟨isFree, whole⟩ := free k lt touched
      exact (sound.blocks k lt).reclaimed (isBlock lt) isFree whole
    · have kept : ∀ y, c.block k ≤ y → y < c.stop (c.block k) →
          ¬(c.base ≤ y ∧ pages (c.page y) = true) :=
        fun y low high both => touched ⟨y, low, high, both.2⟩
      refine (sound.blocks k lt).congr (isBlock lt) ⟨fun x low high => ?_, fun x low high => ?_⟩
        (sound.first k lt.le)
      · rw [tagAt_reclaim, if_neg (kept x low high)]
      · exact if_neg (kept x low high)

theorem step {s' : Heap} (sound : Sound c stray s) (move : Step c stray s s') : Sound c stray s' := by
  cases move with
  | allocate k start call settings stack mem ptr inside free valid room run =>
    obtain ⟨tag, rfl, live, keeps, -⟩ := initChunkWithMemoryTagging_live (sound.reusable inside free)
      (isBlock inside) (placed inside valid room) (sound.tags k inside) (sound.edge inside) run
    exact sound.put inside keeps ⟨tag, _, rfl, live⟩
  | write k ptr size bytes inside get confined =>
    have block := sound.blocks k inside
    rw [get] at block
    obtain ⟨tag, userPtr, rfl, live⟩ := block
    obtain ⟨-, stops, -⟩ := live.holds.choose_spec.bounds
    have fits := (isBlock inside).below
    have positive := c.f.p.page.pos
    rw [extractTag_pointer live.allowed.1 (by omega)] at confined
    refine @written c stray s k bytes sound (fun a outside => confined a (by omega)) ?_
    rw [get]
    refine ⟨tag, userPtr, rfl, Live.congr live (isBlock inside) (fun _ _ _ => rfl) ?_
      (sound.first k inside.le)⟩
    intro x _ _ untagged
    exact confined x fun both => live.nonzero (both.2.2.symm.trans untagged)
  | stray bytes permitted confined =>
    exact ⟨sound.first, sound.tags, fun k lt => (sound.blocks k lt).strayed (isBlock lt) permitted
      (sound.first k lt.le) confined⟩
  | deallocate k ptr size start checks origin deleteSize disableMemInit mem freed inside get run =>
    have block := sound.blocks k inside
    rw [get] at block
    obtain ⟨tag, userPtr, rfl, live⟩ := block
    obtain ⟨above, stops, -⟩ := live.holds.choose_spec.bounds
    have fits := (isBlock inside).below
    have positive := c.f.p.page.pos
    obtain ⟨keeps, reusable, waits, -, away⟩ := deallocate_live live (isBlock inside) run
    have lost : Lost c mem (pointer tag userPtr) size (c.block k) (!disableMemInit) :=
      ⟨tag, userPtr, rfl, live.allowed.1, live.nonzero, above, stops, fun was => away (by simpa using was)⟩
    refine sound.put inside keeps ?_
    split_ifs with freed_
    · obtain ⟨header, holds⟩ := waits freed_
      refine ⟨reusable, lost, header, ?_⟩
      rw [untagPointer_pointer (by omega)]
      exact holds
    · exact ⟨reusable, lost⟩
  | recycle k ptr size retagged mem block inside get run =>
    have before := sound.blocks k inside
    rw [get] at before
    obtain ⟨reusable, lost, header, holds⟩ := before
    obtain ⟨keeps, reusable', -, tags⟩ := recycle_reusable reusable (isBlock inside) holds run
    refine sound.put inside keeps ⟨reusable', lost.congr (isBlock inside) fun x _ _ => Or.inl ?_⟩
    unfold Memory.tagAt
    rw [tags]
  | resize k ptr size newSize checks fill stack mem inside get run =>
    have block := sound.blocks k inside
    rw [get] at block
    obtain ⟨tag, userPtr, rfl, live⟩ := block
    obtain ⟨live', keeps⟩ := reallocateInPlace_live live (isBlock inside) run
    exact sound.put inside keeps ⟨tag, userPtr, rfl, live'⟩
  | takeBatch k batchSize mem ptr inside free some_ room run =>
    have fits : c.block k + 16 + batchSize ≤ c.stop (c.block k) := by
      unfold stop
      omega
    obtain ⟨-, keeps, holds, untagged⟩ := allocateBatch_holds (isBlock inside) fits run
    exact sound.put inside keeps ⟨holds, some_, untagged⟩
  | fillBatch k batchSize bytes inside get confined =>
    have block := sound.blocks k inside
    rw [get] at block
    obtain ⟨⟨header, holds, zeroed⟩, some_, untagged⟩ := block
    obtain ⟨-, stops, -⟩ := holds.bounds
    refine @written c stray s k bytes sound (fun a outside => confined a (by omega)) ?_
    rw [get]
    exact ⟨⟨header, holds.congr (fun x _ high => confined x (by omega))
      fun x _ high => confined x (by omega), zeroed⟩, some_, untagged⟩
  | dropBatch k batchSize mem block inside get run =>
    have before := sound.blocks k inside
    rw [get] at before
    obtain ⟨⟨header, holds, zeroed⟩, some_, untagged⟩ := before
    obtain ⟨-, keeps, reusable⟩ := deallocateBatch_reusable (isBlock inside) some_ holds zeroed
      (sound.first k inside.le) untagged run
    exact sound.put inside keeps reusable
  | reclaim pages free => exact sound.reclaimed free

end Sound

theorem reachable_sound {stray : Prop} {s : Heap} (reached : (system c stray).Reachable s) :
    Sound c stray s :=
  reached.invariant (fun _ start => .init start) fun _ _ sound move => sound.step move

section Released

open Primary (PrimaryConfig RegionInfo BatchGroup TransferBatch FreeBlocks InFreeList Overlaps)
open Primary.PageReleaseContext (releaseFreeList mem_releaseFreeList)
open Primary.RegionInfo (releasedRanges_recorded page_release_complete)

variable {c} {stray : Prop} {s : Heap}

/-- A release of pages that have bytes of some free blocks only, and of all such pages, is a step: the
pages that lie in a block go together. -/
theorem Step.ofPages {pages : Nat → Bool} {listed : Nat → Prop}
    (sound : ∀ j, pages j = true → ∀ i < c.count, Overlaps c.f.p.page c.blockSize i j → listed i)
    (complete : ∀ j, (j + 1) * c.f.p.page.bytes ≤ c.count * c.blockSize →
      (∀ i < c.count, Overlaps c.f.p.page c.blockSize i j → listed i) → pages j = true)
    (free : ∀ k, listed k → s.Free k) :
    Step c stray s ⟨c.reclaim pages s.mem, s.blocks⟩ := by
  -- a page of a block overlaps with it
  have overlaps : ∀ k y, c.block k ≤ y → y < c.stop (c.block k) →
      Overlaps c.f.p.page c.blockSize k (c.page y) := by
    intro k y low high
    have inRegion : c.base ≤ y := le_trans (Nat.le_add_right _ _) low
    obtain ⟨lower, upper⟩ := (page_eq_iff inRegion).mp (rfl : c.page y = c.page y)
    unfold Config.block at low
    unfold Config.stop Config.block at high
    unfold Overlaps
    rw [Nat.succ_mul, Nat.succ_mul]
    omega
  refine Step.reclaim _ fun k lt ⟨y, low, high, taken⟩ => ?_
  have inList := sound _ taken k lt (overlaps k y low high)
  have step : (k + 1) * c.blockSize ≤ c.count * c.blockSize := Nat.mul_le_mul_right _ lt
  rw [Nat.succ_mul] at step
  refine ⟨free k inList, fun _ y' low' high' inFront behind => complete _ ?_ fun i less meets => ?_⟩
  · unfold Config.stop Config.block at behind
    omega
  · -- a page that lies in one block overlaps with no other
    rw [Nat.succ_mul] at behind
    obtain ⟨before, after⟩ := meets
    rw [Nat.succ_mul] at before after
    unfold Config.stop Config.block at behind
    unfold Config.block at inFront
    have same : i = k := by
      rcases Nat.lt_trichotomy i k with less | equal | greater
      · have step : (i + 1) * c.blockSize ≤ k * c.blockSize := Nat.mul_le_mul_right _ less
        rw [Nat.succ_mul] at step
        omega
      · exact equal
      · have step : (k + 1) * c.blockSize ≤ i * c.blockSize := Nat.mul_le_mul_right _ greater
        rw [Nat.succ_mul] at step
        omega
    exact same ▸ inList

/-- The pages that page release of the whole class gives back. -/
def releasedPages (c : Config) (decompactPtr : Nat → Nat) (freeList : List TransferBatch) (j : Nat) :
    Bool :=
  (releaseFreeList c.f.p.page c.blockSize (c.count * c.blockSize) c.base decompactPtr freeList).any
    fun range =>
      decide (range.1 ≤ j * c.f.p.page.bytes) && decide ((j + 1) * c.f.p.page.bytes ≤ range.2)

/-- Page release of the whole class is such a step. -/
theorem Step.classRelease {decompactPtr : Nat → Nat} {freeList : List TransferBatch}
    (some_ : 0 < c.count) (listed : FreeBlocks c.blockSize c.count c.base decompactPtr freeList)
    (free : ∀ k, InFreeList c.blockSize c.base decompactPtr freeList k → s.Free k) :
    Step c stray s ⟨c.reclaim (releasedPages c decompactPtr freeList) s.mem, s.blocks⟩ := by
  have least := c.blockSize_bounds.1
  have most := c.blockSize_bounds.2
  have pages := c.f.p.page.pos
  have total := c.fits
  change c.base + c.count * c.blockSize + _ ≤ _ at total
  have exact_ := @mem_releaseFreeList c.f.p.page _ _ (by omega) some_ (by omega) _ _ _ listed
  have released : ∀ j, releasedPages c decompactPtr freeList j = true ↔
      j * c.f.p.page.bytes < c.count * c.blockSize ∧ ∀ i < c.count, Overlaps c.f.p.page c.blockSize i j →
        InFreeList c.blockSize c.base decompactPtr freeList i := by
    intro j
    rw [← exact_ j]
    unfold releasedPages
    simp only [List.any_eq_true, Bool.and_eq_true, decide_eq_true_eq]
  refine Step.ofPages (fun j is => ((released j).mp is).2) (fun j inside all => ?_) free
  rw [Nat.succ_mul] at inside
  exact (released j).mpr ⟨by omega, all⟩

/-- The region of the class as page release sees it. -/
structure IsRegion (c : Config) {pc : PrimaryConfig} (region : RegionInfo pc) : Prop where
  page : pc.page = c.f.p.page
  base : region.regionBeg = c.base
  block : region.blockSize = c.blockSize
  count : region.allocatedUser = c.count * c.blockSize

/-- The pages in the ranges that are released when some groups have been extracted. -/
def groupPages {pc : PrimaryConfig} (region : RegionInfo pc) (groups : List BatchGroup) (j : Nat) :
    Bool :=
  (region.releasedRanges true groups).any fun range =>
    decide (range.1 ≤ region.regionBeg + j * pc.page.bytes) &&
      decide (region.regionBeg + (j + 1) * pc.page.bytes ≤ range.1 + range.2)

/-- Page release of some groups is such a step, too. -/
theorem Step.pageRelease {pc : PrimaryConfig} {region : RegionInfo pc} (is : IsRegion c region)
    {groups : List BatchGroup} (exact_ : ∀ g ∈ groups, region.Exact g)
    (sorted : groups.Pairwise fun h g => h.compactPtrGroupBase < g.compactPtrGroupBase)
    (free : ∀ g ∈ groups, ∀ k, region.Records g k → s.Free k) :
    Step c stray s ⟨c.reclaim (groupPages region groups) s.mem, s.blocks⟩ := by
  have positive := region.positive
  have pages := pc.page.pos
  have blocks : region.blocksCount = c.count := by
    unfold RegionInfo.blocksCount
    rw [is.count, ← is.block, Nat.mul_div_cancel _ positive]
  refine @Step.ofPages c stray s (groupPages region groups)
    (fun i => ∃ g ∈ groups, region.Records g i) ?_ ?_
    fun k ⟨g, member, recorded⟩ => free g member k recorded
  · intro j taken i less overlaps
    unfold groupPages at taken
    simp only [List.any_eq_true, Bool.and_eq_true, decide_eq_true_eq] at taken
    obtain ⟨range, released, from_, upTo⟩ := taken
    obtain ⟨start, end_, rfl, recorded⟩ := releasedRanges_recorded exact_ sorted released
    dsimp only at from_ upTo
    rw [← is.page, ← is.block] at overlaps
    rw [← blocks] at less
    refine recorded j (Nat.le_of_mul_le_mul_right (Nat.le_of_add_le_add_left from_) pages) ?_ i less
      overlaps
    have next : (j + 1) * pc.page.bytes = j * pc.page.bytes + pc.page.bytes := Nat.succ_mul _ _
    exact Nat.le_of_mul_le_mul_right (by omega : (j + 1) * pc.page.bytes ≤ end_ * pc.page.bytes) pages
  · intro j inside all
    rw [← is.page, ← is.block, ← blocks] at all
    rw [← is.count, ← is.page] at inside
    obtain ⟨range, released, from_, upTo⟩ := page_release_complete exact_ sorted inside all
    unfold groupPages
    simp only [List.any_eq_true, Bool.and_eq_true, decide_eq_true_eq]
    exact ⟨range, released, from_, upTo⟩

end Released

section Results

variable {c} {stray : Prop} {s : Heap} {k ptr size : Nat}

/-- What protects an allocated chunk: its pointer fits its granules and no others around them, and its
header is in place. -/
structure Guarded (c : Config) (m : Memory) (k ptr size : Nat) : Prop where
  tagged : extractTag ptr ≠ 0
  place : c.block k + 16 ≤ untagPointer ptr ∧ untagPointer ptr + size ≤ c.stop (c.block k)
  inside : ∀ a, untagPointer ptr ≤ a → a < untagPointer ptr + size → m.tagAt a = extractTag ptr
  under : ∀ a, untagPointer ptr - 16 ≤ a → a < untagPointer ptr → m.tagAt a = 0
  beyond : ∀ a, stopOf (untagPointer ptr) size ≤ a → a < stopOf (untagPointer ptr) size + 16 →
    m.tagAt a = 0
  neighbours : c.useOddEvenTags = true → ∀ j < c.count, j + 1 = k ∨ k + 1 = j → ∀ a, c.block j ≤ a →
    a < c.stop (c.block j) → m.tagAt a ≠ extractTag ptr
  empty : size = 0 → untagPointer ptr < c.stop (c.block k) →
    m.bytes (untagPointer ptr) = UInt8.ofNat (extractTag ptr)
  header : ∃ header, c.f.loadHeader (untagPointer ptr) m.bytes = some header ∧
    header.state = allocated ∧ header.sizeOrUnusedBytes.toNat = size ∧
    c.f.getBlockBegin (untagPointer ptr) header = c.block k

/-- A granule has one tag. -/
theorem tagAt_granule {m : Memory} {a x : Nat} (aligned : 16 ∣ a) (low : a ≤ x) (high : x < a + 16) :
    m.tagAt x = m.tagAt a := by
  have one : x / 16 = a / 16 := by omega
  unfold Memory.tagAt
  rw [one]

/-- Whatever is allocated, resized, released, recycled and given back to the system, and wherever users
write with any tag, allocated chunks are guarded. -/
theorem chunks_guarded (reached : (system c stray).Reachable s) (inside : k < c.count)
    (get : s.blocks k = .allocated ptr size) : Guarded c s.mem k ptr size := by
  have sound := reachable_sound c reached
  have block := sound.blocks k inside
  rw [get] at block
  obtain ⟨tag, userPtr, rfl, nonzero, allowed, tagged, header, holds⟩ := block
  obtain ⟨above, stops, -, -, aligned⟩ := holds.bounds
  have is := isBlock inside
  have fits := is.below
  have positive := c.f.p.page.pos
  have untagged : untagPointer (pointer tag userPtr) = userPtr := untagPointer_pointer (by omega)
  have extracted : extractTag (pointer tag userPtr) = tag := extractTag_pointer allowed.1 (by omega)
  obtain ⟨stopAligned, reach, -⟩ := stopOf_bounds userPtr size
  have last := stopOf_le is.stop_dvd stops
  constructor
  · rw [extracted]
    exact nonzero
  · rw [untagged]
    exact ⟨above, stops⟩
  · rw [untagged, extracted]
    exact fun a low high => tagged.inside a low (by omega)
  · rw [untagged]
    intro a low high
    rw [tagAt_granule (by omega) low (by omega)]
    exact tagged.front
  · rw [untagged]
    intro a low high
    rw [tagAt_granule stopAligned low high]
    rcases Nat.lt_or_ge (stopOf userPtr size) (c.stop (c.block k)) with before | at_
    · exact tagged.behind before
    · rw [le_antisymm last at_]
      exact sound.edge inside
  · rw [extracted]
    intro enabled j lt beside a low high same
    have other : c.Allowed (c.block j) tag := by
      have either := sound.tags j lt a low high
      rw [same] at either
      exact either.resolve_left nonzero
    rcases beside with rfl | rfl
    · rw [← c.block_succ] at allowed
      exact allowed_disjoint c enabled other allowed
    · rw [← c.block_succ] at other
      exact allowed_disjoint c enabled allowed other
  · rw [untagged, extracted]
    exact tagged.empty
  · rw [untagged]
    exact ⟨header, holds.loads, holds.state, holds.size_eq, holds.getBlockBegin_eq⟩

section Concrete

/-- Four blocks of 7 KB on seven pages. -/
def sevenKilobytes : Config where
  f := Frontend.defaultSetup Secondary.Platform.linux64
  word := rfl
  dczid := 4
  lines := fun _ => by decide
  useOddEvenTags := true
  classId := 27
  classId_pos := by decide
  classId_lt := by decide
  base := 0x10000000
  count := 4
  granules := by decide
  least := by decide
  most := by decide
  paged := by decide
  fits := by decide

def emptyHeap : Heap := ⟨⟨fun _ => 0, fun _ => 0⟩, fun _ => .unused⟩

/-- 5000 bytes in the first block. -/
def firstCall : Call := ⟨5000, 16, .malloc, true⟩

theorem firstCall_valid : firstCall.Valid sevenKilobytes.f.p := ⟨by decide, by decide, by decide⟩

theorem firstCall_room : Combined.neededSize sevenKilobytes.f.p firstCall.size
    (Combined.raisedAlignment sevenKilobytes.f.p firstCall.alignment) ≤ sevenKilobytes.blockSize := by
  decide

/-- A free block can be allocated. -/
theorem allocate_reachable (reached : (system sevenKilobytes stray).Reachable s) (inside : k < 4)
    (free : s.Free k) : ∃ (s' : Heap) (ptr : Nat), (system sevenKilobytes stray).Reachable s' ∧
      s'.blocks = Function.update s.blocks k (.allocated ptr 5000) := by
  obtain ⟨⟨mem, ptr⟩, run⟩ : ∃ after, sevenKilobytes.initChunkWithMemoryTagging 3 s.mem .malloc none
      (sevenKilobytes.block k) (Combined.userPtrOf sevenKilobytes.f.p (sevenKilobytes.block k)
        (Combined.raisedAlignment sevenKilobytes.f.p 16)) 5000
      (Combined.fillContentsOf Frontend.zeroSettings true) = after := ⟨_, rfl⟩
  have step : Step sevenKilobytes stray s (s.put mem k (.allocated ptr 5000)) :=
    .allocate k 3 firstCall Frontend.zeroSettings none mem ptr inside free firstCall_valid
      firstCall_room run
  exact ⟨_, ptr, reached.step step, rfl⟩

/-- An allocated chunk can be released past the quarantine. -/
theorem deallocate_reachable (reached : (system sevenKilobytes stray).Reachable s) (inside : k < 4)
    (get : s.blocks k = .allocated ptr 5000) :
    ∃ s', (system sevenKilobytes stray).Reachable s' ∧
      s'.blocks = Function.update s.blocks k (.released ptr 5000 true) := by
  have block := (reachable_sound sevenKilobytes reached).blocks k inside
  rw [get] at block
  obtain ⟨tag, userPtr, rfl, live⟩ := block
  obtain ⟨mem, freed, ran, gives⟩ := @deallocate_returns sevenKilobytes s.mem tag userPtr 5000
    (sevenKilobytes.block k) 7 .malloc ⟨false, false, 0, 0⟩ false live (isBlock inside) rfl
  refine ⟨_, reached.step (Step.deallocate k _ 5000 7 ⟨false, false, 0, 0⟩ .malloc 0
    false mem freed inside get ran), ?_⟩
  rw [if_neg (gives rfl)]
  rfl

theorem empty_reachable (stray : Prop) : (system sevenKilobytes stray).Reachable emptyHeap :=
  .init ⟨rfl, fun _ => rfl⟩

/-- Two neighbours, of which the first one is released and allocated again, are guarded from
each other. -/
theorem chunks_guarded_neighbours : ∃ (s : Heap) (ptr ptr' : Nat),
    s.blocks 0 = .allocated ptr 5000 ∧ s.blocks 1 = .allocated ptr' 5000 ∧
      Guarded sevenKilobytes s.mem 0 ptr 5000 ∧ Guarded sevenKilobytes s.mem 1 ptr' 5000 ∧
      extractTag ptr ≠ extractTag ptr' := by
  obtain ⟨one, old, reachedOne, blocksOne⟩ :=
    allocate_reachable (k := 0) (empty_reachable True) (by decide) (Or.inl rfl)
  obtain ⟨two, ptr', reachedTwo, blocksTwo⟩ :=
    allocate_reachable (k := 1) reachedOne (by decide) (Or.inl (by rw [blocksOne]; rfl))
  obtain ⟨three, reachedThree, blocksThree⟩ :=
    deallocate_reachable (k := 0) reachedTwo (by decide) (by rw [blocksTwo, blocksOne]; rfl)
  obtain ⟨s, ptr, reached, blocks⟩ := allocate_reachable (k := 0) reachedThree (by decide)
    (Or.inr ⟨old, 5000, true, by rw [blocksThree]; rfl⟩)
  have first : s.blocks 0 = .allocated ptr 5000 := by rw [blocks]; rfl
  have second : s.blocks 1 = .allocated ptr' 5000 := by
    rw [blocks, blocksThree, blocksTwo]
    rfl
  have guarded := chunks_guarded reached (by decide) first
  have guarded' := chunks_guarded reached (by decide) second
  refine ⟨s, ptr, ptr', first, second, guarded, guarded', ?_⟩
  rw [← guarded.inside (untagPointer ptr) le_rfl (by omega)]
  have place := guarded.place
  exact guarded'.neighbours rfl 0 (by decide) (Or.inl rfl) (untagPointer ptr) (by omega) (by omega)

/-- The chunk is released, past the quarantine. -/
theorem released_reachable (stray : Prop) : ∃ (s : Heap) (ptr : Nat),
    (system sevenKilobytes stray).Reachable s ∧ s.blocks 0 = .released ptr 5000 true := by
  obtain ⟨s, ptr, reached, blocks⟩ :=
    allocate_reachable (k := 0) (empty_reachable stray) (by decide) (Or.inl rfl)
  obtain ⟨s', reached', blocks'⟩ :=
    deallocate_reachable (k := 0) reached (by decide) (by rw [blocks]; rfl)
  exact ⟨s', ptr, reached', by rw [blocks']; rfl⟩

end Concrete

/-- After the release of a chunk by a thread that fills memory, its pointer fits no byte of it, in the
quarantine and until the block has another chunk. -/
theorem released_pointers_fault (reached : (system c stray).Reachable s) (inside : k < c.count)
    (get : s.blocks k = .quarantined ptr size true ∨ s.blocks k = .released ptr size true) :
    ∀ a, untagPointer ptr ≤ a → a < untagPointer ptr + size → s.mem.tagAt a ≠ extractTag ptr := by
  have block := (reachable_sound c reached).blocks k inside
  have lost : Lost c s.mem ptr size (c.block k) true := by
    rcases get with waits | gone
    · rw [waits] at block
      exact block.2.1
    · rw [gone] at block
      exact block.2
  obtain ⟨tag, userPtr, rfl, small, -, -, stops, away⟩ := lost
  have fits := (isBlock inside).below
  have positive := c.f.p.page.pos
  rw [untagPointer_pointer (by omega), extractTag_pointer small (by omega)]
  have reach := (stopOf_bounds userPtr size).2.1
  exact fun a low high => away rfl a low (by omega)

theorem released_pointers_fault_first : ∃ (s : Heap) (ptr : Nat), s.blocks 0 = .released ptr 5000 true ∧
    ∀ a, untagPointer ptr ≤ a → a < untagPointer ptr + 5000 → s.mem.tagAt a ≠ extractTag ptr := by
  obtain ⟨s, ptr, reached, get⟩ := released_reachable True
  exact ⟨s, ptr, get, released_pointers_fault reached (by decide) (Or.inr get)⟩

/-- Where users write only through the pointers of allocated chunks, an allocation that fills is zero in
every state, whether its block was cleared when it was released, was reclaimed in part, or neither. -/
theorem allocations_zeroed (reached : (system c False).Reachable s) (inside : k < c.count)
    (free : s.Free k) {start : Nat} {call : Call} {settings : Settings}
    {stack : Option (BitVec 32 × BitVec 32)} {mem : Memory} (valid : call.Valid c.f.p)
    (room : Combined.neededSize c.f.p call.size (Combined.raisedAlignment c.f.p call.alignment) ≤
      c.blockSize)
    (fills : Combined.fillContentsOf settings call.zeroContents ≠ .noFill)
    (run : c.initChunkWithMemoryTagging start s.mem call.origin stack (c.block k)
      (Combined.userPtrOf c.f.p (c.block k) (Combined.raisedAlignment c.f.p call.alignment)) call.size
      (Combined.fillContentsOf settings call.zeroContents) = (mem, ptr)) :
    ∀ a, untagPointer ptr ≤ a → a < untagPointer ptr + call.size → mem.bytes a = 0 := by
  have sound := reachable_sound c reached
  have placed := placed inside valid room
  obtain ⟨tag, rfl, -, -, zero⟩ := initChunkWithMemoryTagging_live (sound.reusable inside free)
    (isBlock inside) placed (sound.tags k inside) (sound.edge inside) run
  have fits := (isBlock inside).below
  have stops := placed.inside
  have positive := c.f.p.page.pos
  rw [untagPointer_pointer (by omega)]
  exact zero not_false fills

/-- The block is allocated again with the same size. -/
theorem allocations_zeroed_again : ∃ (s : Heap) (ptr : Nat), s.blocks 0 = .released ptr 5000 true ∧
    ∃ (mem : Memory) (ptr' : Nat), sevenKilobytes.initChunkWithMemoryTagging 3 s.mem .malloc none (sevenKilobytes.block 0)
        (Combined.userPtrOf sevenKilobytes.f.p (sevenKilobytes.block 0)
          (Combined.raisedAlignment sevenKilobytes.f.p 16)) 5000 .zeroFill = (mem, ptr') ∧
      ∀ a, untagPointer ptr' ≤ a → a < untagPointer ptr' + 5000 → mem.bytes a = 0 := by
  obtain ⟨s, ptr, reached, get⟩ := released_reachable False
  exact ⟨s, ptr, get, _, _, rfl, @allocations_zeroed sevenKilobytes s 0 _ reached (by decide)
    (Or.inr ⟨ptr, 5000, true, get⟩) 3 firstCall Frontend.zeroSettings none _ firstCall_valid
    firstCall_room (by decide) rfl⟩

end Results

end Scudo.Tagging
