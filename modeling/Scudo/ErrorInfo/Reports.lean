import Scudo.ErrorInfo.Tolerance

/-!
Reports are only added, one at a time, and never changed later: what the search close to the fault has
found stays in front of what is found afterwards.
-/

namespace Scudo.ErrorInfo
open Scudo.Primary
open Scudo.Lib.Checked

/-- The reports that are there stay as they are. -/
structure Reporting.Extends (s t : Reporting) : Prop where
  le : s.nextErrorReport ≤ t.nextErrorReport
  kept : ∀ j (inside : j < numErrorReports), j < s.nextErrorReport → t.reports[j] = s.reports[j]

/-- One more report. -/
structure Reporting.Adds (s t : Reporting) (report : ErrorReport) : Prop where
  next : t.nextErrorReport = s.nextErrorReport + 1
  kept : ∀ j (inside : j < numErrorReports), j ≠ s.nextErrorReport → t.reports[j] = s.reports[j]
  added : ∀ inside : s.nextErrorReport < numErrorReports, t.reports[s.nextErrorReport] = report

/-- A report that has been written. -/
def Reporting.Has (good : ErrorReport → Prop) (t : Reporting) : Prop :=
  ∃ (j : Nat) (inside : j < numErrorReports), j < t.nextErrorReport ∧ good t.reports[j]

variable {s t u : Reporting} {report : ErrorReport} {good : ErrorReport → Prop}

namespace Reporting

theorem Extends.refl (s : Reporting) : s.Extends s := ⟨le_rfl, fun _ _ _ => rfl⟩

theorem Extends.trans (first : s.Extends t) (second : t.Extends u) : s.Extends u :=
  ⟨first.le.trans second.le, fun j inside below =>
    (second.kept j inside (lt_of_lt_of_le below first.le)).trans (first.kept j inside below)⟩

theorem Adds.extends (adds : s.Adds t report) : s.Extends t :=
  ⟨adds.next ▸ Nat.le_succ _, fun j inside below => adds.kept j inside below.ne⟩

theorem Adds.has (adds : s.Adds t report) (room : s.nextErrorReport < numErrorReports)
    (holds : good report) : t.Has good := by
  refine ⟨s.nextErrorReport, room, ?_, ?_⟩
  · rw [adds.next]
    exact Nat.lt_succ_self _
  · rw [adds.added room]
    exact holds

theorem Has.extends (has : s.Has good) (more : s.Extends t) : t.Has good := by
  obtain ⟨j, inside, below, holds⟩ := has
  refine ⟨j, inside, lt_of_lt_of_le below more.le, ?_⟩
  rw [more.kept j inside below]
  exact holds

end Reporting

/-- What `setAt` at the next report leaves. -/
theorem setAt_adds {reports : Vector ErrorReport numErrorReports}
    (run : setAt s.reports s.nextErrorReport report = .ok reports) :
    s.Adds ⟨reports, s.nextErrorReport + 1⟩ report := by
  unfold setAt at run
  split_ifs at run with inside
  cases run
  exact ⟨rfl, fun j small other => Vector.getElem_set_ne inside small (Ne.symm other),
    fun _ => Vector.getElem_set_self inside⟩

section Inline

variable {dump : CrashDump} {depot : Option StackDepot} {info : BlockInfo}

/-- One more report, or none; and whether all are used. -/
def OneMore (s : Reporting) (result : Bool × Reporting) : Prop :=
  result = (false, s) ∨ ∃ report, s.Adds result.2 report ∧
    result.1 = (s.nextErrorReport + 1 == numErrorReports)

theorem OneMore.extends {result : Bool × Reporting} (more : OneMore s result) : s.Extends result.2 := by
  rcases more with rfl | ⟨report, adds, -⟩
  · exact Reporting.Extends.refl s
  · exact adds.extends

theorem OneMore.le {result : Bool × Reporting} (more : OneMore s result) :
    result.2.nextErrorReport ≤ s.nextErrorReport + 1 := by
  rcases more with rfl | ⟨report, adds, -⟩
  · exact Nat.le_succ _
  · exact adds.next.le

/-- The search goes on where there is room for another report. -/
theorem OneMore.goesOn {result : Bool × Reporting} (more : OneMore s result)
    (room : s.nextErrorReport + 1 < numErrorReports) : result.1 = false := by
  rcases more with rfl | ⟨report, -, all⟩
  · rfl
  · rw [all]
    exact beq_eq_false_iff_ne.mpr room.ne

theorem checkOOB_gives (blockAddr : Nat) :
    Gives (checkOOB dump depot info s blockAddr) (OneMore s) := by
  have unchanged : OneMore s (false, s) := Or.inl rfl
  unfold checkOOB
  apply Gives.ite (fun _ => Gives.pure unchanged)
  intro _
  apply Gives.skip
  intro block
  cases block with
  | none => exact Gives.pure unchanged
  | some block =>
    apply Gives.ite (fun _ => Gives.pure unchanged)
    intro _
    apply Gives.skip
    intro r
    apply Gives.skip
    intro allocationTrace
    apply Gives.skip
    intro tid
    have sets (report : ErrorReport) : Gives (setAt s.reports s.nextErrorReport report) fun reports =>
        s.Adds ⟨reports, s.nextErrorReport + 1⟩ report := ⟨fun _ run => setAt_adds run⟩
    apply (sets _).bind
    intro reports adds
    exact Gives.pure (Or.inr ⟨_, adds, rfl⟩)

theorem checkOOB_extends (blockAddr : Nat) :
    Gives (checkOOB dump depot info s blockAddr) fun result => s.Extends result.2 :=
  (checkOOB_gives blockAddr).mono fun _ more => more.extends

theorem checkDistances_extends (distances : List Nat) :
    Gives (checkDistances dump depot info s distances) s.Extends := by
  induction distances generalizing s with
  | nil => exact Gives.pure (Reporting.Extends.refl s)
  | cons i rest ih =>
    unfold checkDistances
    apply (checkOOB_extends _).bind
    intro first added
    apply Gives.ite (fun _ => Gives.pure added)
    intro _
    apply (checkOOB_extends _).bind
    intro second more
    apply Gives.ite (fun _ => Gives.pure (added.trans more))
    intro _
    exact ih.mono fun last later => (added.trans more).trans later

theorem getInlineErrorInfo_extends (classes : SizeClasses) (fuel minDistance maxDistance : Nat) :
    Gives (getInlineErrorInfo dump depot classes fuel s minDistance maxDistance) s.Extends := by
  unfold getInlineErrorInfo
  apply Gives.skip
  intro info
  apply Gives.ite (fun _ => Gives.pure (Reporting.Extends.refl s))
  intro _
  have own : Gives (if minDistance = 0 then checkOOB dump depot info s info.blockBegin
      else pure (false, s)) fun result => s.Extends result.2 :=
    Gives.ite (fun _ => checkOOB_extends _) fun _ => Gives.pure (Reporting.Extends.refl s)
  apply own.bind
  intro first added
  apply Gives.ite (fun _ => Gives.pure added)
  intro _
  exact (checkDistances_extends _).mono fun last later => added.trans later

end Inline

section Ring

variable {page : PageSize} {faultAddr : Nat}

theorem checkEntry_extends (depot : StackDepot) (ring : Buffer) (n : Nat) :
    Gives (checkEntry page faultAddr depot ring s n) s.Extends := by
  have unchanged := Reporting.Extends.refl s
  unfold checkEntry
  apply Gives.skip
  intro entryPtr
  apply Gives.ite (fun _ => Gives.pure unchanged)
  intro _
  iterate 6
    apply Gives.skip
    intro _
  apply Gives.ite (fun _ => Gives.pure unchanged)
  intro _
  iterate 3
    apply Gives.skip
    intro _
  have sets (report : ErrorReport) : Gives (setAt s.reports s.nextErrorReport report) fun reports =>
      s.Adds ⟨reports, s.nextErrorReport + 1⟩ report := ⟨fun _ run => setAt_adds run⟩
  apply (sets _).bind
  intro reports adds
  exact Gives.pure adds.extends

theorem getRingBufferErrorInfo_extends (depot : Option StackDepot) (ring : Option Buffer) (fuel : Nat) :
    Gives (getRingBufferErrorInfo page faultAddr depot ring fuel s) s.Extends := by
  have unchanged := Reporting.Extends.refl s
  unfold getRingBufferErrorInfo
  cases ring with
  | none => exact Gives.pure unchanged
  | some ring =>
    cases depot with
    | none => exact Gives.pure unchanged
    | some depot =>
      apply Gives.ite (fun _ => Gives.pure unchanged)
      intro _
      apply Gives.skip
      intro pos
      have walk := @Gives.loop _ _ (.exhausted : Fault)
        (fun state : Nat × Reporting => decide (state.1 ≠ wsub 64 (wsub 64 pos 1)
          (ringBufferElementsFromBytes ring.size)) && decide (state.2.nextErrorReport ≠ numErrorReports))
        (fun state => do
          let s ← checkEntry page faultAddr depot ring state.2
            (state.1 % ringBufferElementsFromBytes ring.size)
          return (wsub 64 state.1 1, s))
        (fun state => s.Extends state.2) ?_ fuel (wsub 64 pos 1, s) unchanged
      · exact walk.bind fun last added => Gives.pure added
      · intro state added
        apply (checkEntry_extends depot ring _).bind
        intro next more
        exact Gives.pure (added.trans more)

end Ring

end Scudo.ErrorInfo
