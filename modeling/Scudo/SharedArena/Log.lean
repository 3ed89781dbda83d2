import Scudo.SharedArena.Types

/-!
Appending to the delegation log. The consumer of a ring moves its `head` at any time, so
the values that the two atomic loads of `head` return are arguments.
-/

namespace Scudo.SharedArena

/-- The values returned by the first and the second load of the ring's head. -/
structure HeadLoads where
  first : Nat
  second : Nat
  deriving DecidableEq, Repr

/-- Result of an append: the returned flag, the process-local object afterwards, and the
entry that was published, if any. -/
structure AppendResult where
  ok : Bool
  arena : Arena
  written : Option SharedArenaLogEntry

namespace Arena

/-- No slot is free as far as the given head tells. -/
def logFull (arena : Arena) (head : Nat) : Bool :=
  decide (arena.logCapacityCache ≤ wsub 32 arena.logTailCache head)

/-- Make room: trust the cached head first, then load it, then yield and load it again. -/
def refreshLogHead (arena : Arena) (loads : HeadLoads) : Bool × Arena :=
  if arena.logFull arena.logHeadCache then
    let arena := { arena with logHeadCache := loads.first }
    if arena.logFull loads.first then
      let arena := { arena with logHeadCache := loads.second }
      if arena.logFull loads.second then
        (false, { arena with
          logRing := { arena.logRing with dropped := wrap 32 (arena.logRing.dropped + 1) } })
      else (true, arena)
    else (true, arena)
  else (true, arena)

/-- Write the entry at the cached tail and publish the next tail. -/
def publishLogEntry (arena : Arena) (entry : SharedArenaLogEntry) : Arena :=
  let newTail := wrap 32 (arena.logTailCache + 1)
  { arena with
    logRing := { arena.logRing with
      entries := Function.update arena.logRing.entries
        (arena.logTailCache &&& arena.logCapacityMask) (some entry)
      tail := newTail }
    logTailCache := newTail }

def appendLogPagesLocked (env : EnvCache) (page : PageSize) (arena : Arena) (loads : HeadLoads)
    (op : SharedArenaLogOp) (srcCpu startPage commitSize flags : Nat) : AppendResult :=
  if env.allowNoKernel then ⟨true, arena, none⟩
  else if commitSize = 0 ∨ isAligned commitSize page.bytes = false then ⟨false, arena, none⟩
  else if arena.logCapacityCache = 0 then ⟨false, arena, none⟩
  else
    match arena.refreshLogHead loads with
    | (false, arena) => ⟨false, arena, none⟩
    | (true, arena) =>
      let entry : SharedArenaLogEntry :=
        { op := op, srcCpu := srcCpu, flags := flags, startPage := startPage,
          numPages := wrap 32 (commitSize / page.bytes) }
      ⟨true, arena.publishLogEntry entry, some entry⟩

def appendLogLocked (env : EnvCache) (page : PageSize) (arena : Arena) (loads : HeadLoads)
    (op : SharedArenaLogOp) (commitBase commitSize flags : Nat) : AppendResult :=
  if isAligned commitBase page.bytes = false then ⟨false, arena, none⟩
  else
    appendLogPagesLocked env page arena loads op (wrap 8 arena.coreId)
      (arena.addrToPageOff page commitBase) commitSize flags

/-- The largest power of two of entries that fits behind the ring header in one page. -/
def logRingCapacity (page : PageSize) : Nat :=
  2 ^ Nat.log2 ((page.bytes - kLogRingHeaderBytes) / kLogEntryBytes)

/-- Map and fill in a fresh ring; `mapped` is the outcome of `mmap`. -/
def initLogRing (page : PageSize) (mapped : Bool) (totalDataPages : Nat) (arena : Arena) :
    Bool × Arena :=
  let unset := { arena with logHeadCache := 0, logTailCache := 0, logCapacityCache := 0,
                            logCapacityMask := 0 }
  if mapped = false then (false, arena)
  else if page.bytes ≤ kLogRingHeaderBytes then (false, unset)
  else if (page.bytes - kLogRingHeaderBytes) / kLogEntryBytes = 0 then (false, unset)
  else
    (true, { arena with
      logRing :=
        { magic := kLogRingMagic
          version := kLogRingVersion
          flags := 0
          capacity := logRingCapacity page
          arenaNrPages := totalDataPages
          ringSize := page.bytes
          head := 0
          tail := 0
          dropped := 0
          entries := fun _ => none }
      logHeadCache := 0
      logTailCache := 0
      logCapacityCache := logRingCapacity page
      logCapacityMask := logRingCapacity page - 1 })

end Arena

end Scudo.SharedArena
