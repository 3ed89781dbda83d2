import Scudo.SharedArena.System

/-!
Where the blocks lie that `retrieve` hands out. With pages other than those of the header page
nothing is handed out: the data area does not start at a page, and the log refuses the block.
-/

namespace Scudo.SharedArena
open Scudo.Lib

/-- A block inside the data area of one core, with room for headers and an aligned user part. -/
structure Handout.Inside (core size alignment headersSize : Nat) (h : Handout) : Prop where
  core_lt : core < kArenaMaxCores
  base : dataBaseOf core ≤ h.commitBase
  stop : h.commitBase + h.commitSize ≤ baseAddrOf core + kArenaCapacityPerCore
  pages : 4096 ∣ h.commitBase ∧ 4096 ∣ h.commitSize
  header : h.commitBase ≤ h.entryHeaderPos
  aligned : alignment ∣ h.entryHeaderPos + headersSize
  position : h.entryHeaderPos + headersSize =
    roundDownSlow (h.commitBase + h.commitSize - size) alignment
  user : h.entryHeaderPos + headersSize + size ≤ h.commitBase + h.commitSize

section Small

variable {w : World} {env : Nat → EnvCache} {process core size alignment headersSize : Nat}

theorem handoutOf_inside (core_lt : core < kArenaMaxCores)
    (request : Request size alignment headersSize) (fits : ¬Misfit size alignment headersSize)
    {x : Span} (inside : x.start + x.len ≤ arenaPages)
    (len : x.len = pagesFor size headersSize) :
    (handoutOf core x size alignment headersSize).Inside core size alignment headersSize := by
  obtain ⟨exactSize, enough, _⟩ := request.pages
  have bounded := request.pages_lt
  have small := request.alignment_lt
  have below := request.roundDown_le
  have room : headersSize ≤
      roundDown 64 (Arena.neededSize PageSize.small size headersSize - size) alignment := by
    unfold Misfit at fits
    omega
  rw [exactSize, ← len] at room below
  have position : (handoutOf core x size alignment headersSize).entryHeaderPos + headersSize =
      pageAddr core x.start + roundDown 64 (x.len * 4096 - size) alignment := by
    change pageAddr core x.start + roundDown 64
      (Arena.neededSize PageSize.small size headersSize - size) alignment - headersSize +
        headersSize = _
    rw [exactSize, ← len]
    omega
  constructor
  · exact core_lt
  · exact Nat.le_add_right _ _
  · change pageAddr core x.start + x.len * 4096 ≤ _
    rw [arenaPages_eq] at inside
    unfold pageAddr dataBaseOf kArenaHeaderSize kArenaCapacityPerCore
    omega
  · exact ⟨dvd_pageAddr core x.start, Nat.dvd_mul_left _ _⟩
  · change pageAddr core x.start ≤ pageAddr core x.start + roundDown 64
      (Arena.neededSize PageSize.small size headersSize - size) alignment - headersSize
    rw [exactSize, ← len]
    omega
  · rw [position]
    apply Nat.dvd_add (request.alignment_dvd x.start)
    rw [roundDown_eq request.power (by omega) (by omega)]
    exact dvd_roundDownSlow _ _
  · rw [position, roundDown_eq request.power (by omega) (by omega)]
    change _ = roundDownSlow (pageAddr core x.start + x.len * 4096 - size) alignment
    rw [Nat.add_sub_assoc (by omega), roundDownSlow_add (request.alignment_dvd x.start)]
  · rw [position]
    change _ ≤ pageAddr core x.start + x.len * 4096
    omega

/-- In every run with 4 KB pages a block handed out lies in the arena that was asked. -/
theorem handout_inside (reached : (World.system env).Reachable w) (settings : EnvCache)
    (loads : HeadLoads) (request : Request size alignment headersSize) {result : RetrieveResult}
    (run : (w.object process core).retrieve settings PageSize.small (w.mem core) loads size
      alignment headersSize = some result) {h : Handout} (out : result.out = some h) :
    h.Inside core size alignment headersSize := by
  have sound := World.reachable_sound reached
  obtain ⟨e, tracks⟩ := sound.tracks core
  obtain ⟨result', run', outcome⟩ :=
    tracks.rep.retrieve (sound.placed process core) request settings loads
  rw [run] at run'
  cases run'
  cases outcome with
  | idle => cases out
  | exhausted => cases out
  | leaked => cases out
  | unlogged => cases out
  | handed initialized _ fits _ x e' takes =>
    cases out
    exact handoutOf_inside (sound.placed process core initialized).core_lt request fits
      (takes_stop_le takes) takes.len_eq

end Small

section Larger

variable {page : PageSize} {arena : Arena} {core : Nat}

theorem pageSize_log_bounds {k : Nat} (page : PageSize) (power : page.bytes = 2 ^ k) :
    12 ≤ k ∧ k ≤ 29 := by
  have atLeast := page.atLeast
  have atMost := page.atMost
  rw [power] at atLeast atMost
  exact ⟨(Nat.pow_le_pow_iff_right (by decide : 1 < 2)).mp (le_trans (by decide) atLeast),
    (Nat.pow_le_pow_iff_right (by decide : 1 < 2)).mp atMost⟩

/-- The header page shifts the data area off the boundaries of larger pages. -/
theorem not_aligned_pageOffToAddr (placed : arena.At core) (larger : page.bytes ≠ 4096)
    (off : Nat) : isAligned (arena.pageOffToAddr page off) page.bytes = false := by
  obtain ⟨k, power⟩ := isPowerOfTwo_iff.mp page.power
  obtain ⟨atLeast, atMost⟩ := pageSize_log_bounds page power
  have proper : 13 ≤ k := by
    by_contra small
    have exact : k = 12 := by omega
    rw [exact] at power
    exact larger power
  rw [← Bool.not_eq_true, isAligned_iff page.power]
  intro aligned
  unfold Arena.pageOffToAddr wadd wrap at aligned
  have inWord : page.bytes ∣ 2 ^ 64 := power ▸ Nat.pow_dvd_pow 2 (by omega)
  rw [placed.dataBase, Nat.dvd_mod_iff inWord,
    Nat.dvd_add_left (Nat.dvd_mul_left page.bytes off)] at aligned
  have base : dataBaseOf core = 2 ^ 29 * (2 ^ 16 + core) + 4096 := by
    unfold dataBaseOf baseAddrOf kSharedArenaBaseAddr kArenaCapacityPerCore kArenaHeaderSize
    omega
  have inCapacity : page.bytes ∣ 2 ^ 29 * (2 ^ 16 + core) :=
    (power ▸ Nat.pow_dvd_pow 2 atMost : page.bytes ∣ 2 ^ 29).trans (Nat.dvd_mul_right _ _)
  rw [base, Nat.dvd_add_right inCapacity] at aligned
  have atMostHeader := Nat.le_of_dvd (by decide) aligned
  have tooLarge : 2 ^ 13 ≤ page.bytes := power ▸ Nat.pow_le_pow_right (by decide) proper
  omega

/-- Whatever pages are taken, their address is that of some page offset. -/
theorem takePages_base {m : ArenaMemory} {bestOff needed : Nat} {taken : Taken}
    (took : arena.takePages page m bestOff needed = some taken) :
    ∃ off, taken.allocBase = arena.pageOffToAddr page off := by
  unfold Arena.takePages at took
  dsimp only at took
  split_ifs at took with bump
  · unfold Arena.takeBump at took
    dsimp only at took
    split_ifs at took
    cases took
    exact ⟨_, rfl⟩
  · cases took
    unfold Arena.takeFree at bump ⊢
    dsimp only at bump ⊢
    split_ifs at bump ⊢
    · exact ⟨_, rfl⟩
    · exact ⟨_, rfl⟩
    · exact absurd rfl bump

/-- With larger pages `retrieve` never succeeds, whatever the shared memory holds. -/
theorem retrieve_larger_page (placed : arena.Placed core) (larger : page.bytes ≠ 4096)
    {env : EnvCache} {m : ArenaMemory} {loads : HeadLoads} {size alignment headersSize : Nat}
    {result : RetrieveResult}
    (run : arena.retrieve env page m loads size alignment headersSize = some result) :
    result.out = none := by
  unfold Arena.retrieve at run
  by_cases uninitialized : arena.initialized = false
  · rw [if_pos uninitialized] at run
    cases run
    rfl
  · rw [if_neg uninitialized] at run
    dsimp only at run
    cases find : m.findBestFit env (Arena.neededPages page size headersSize) with
    | none =>
      rw [find] at run
      cases run
    | some best =>
      rw [find] at run
      dsimp only at run
      cases took : arena.takePages page best.2 best.1 (Arena.neededPages page size headersSize) with
      | none =>
        rw [took] at run
        cases run
        rfl
      | some taken =>
        obtain ⟨off, base⟩ := takePages_base took
        have refused : (arena.appendLogLocked env page loads .alloc taken.allocBase
            (Arena.neededSize page size headersSize) 0).ok = false := by
          unfold Arena.appendLogLocked
          rw [base, if_pos (not_aligned_pageOffToAddr (placed (by simpa using uninitialized))
            larger off)]
        rw [took] at run
        dsimp only at run
        rw [if_pos refused] at run
        split_ifs at run <;> (cases run; rfl)

end Larger

end Scudo.SharedArena
