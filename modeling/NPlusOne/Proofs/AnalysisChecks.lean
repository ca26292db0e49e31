import Mathlib.Algebra.Group.Nat.Defs
import Mathlib.Algebra.Group.Prod
import NPlusOne.Proofs.AnalysisGroundwork

namespace NPlusOne

/-- The state after the line that sums up the progress. -/
def AnalysisState.told (st : AnalysisState) : AnalysisState :=
  HasLog.append ⟨.info, .command, st.progress.summary .zero⟩ st

namespace Analyzer

variable {a : Analyzer} {files : FileTree}

/-- The check of a file: its loops, and how the search of them ended. -/
structure FileCheck where
  path : String
  loops : List Node
  outcome : Except Failure Unit

/-- The number of loops, where all of them could be checked. -/
def FileCheck.result (k : FileCheck) : Except Failure Nat :=
  k.outcome.map fun _ => k.loops.length

/-- Checks of files that follow each other: those that were made, the search after them, and why the
loops of the next file could not be listed, if that ended them. -/
structure Checks where
  made : List FileCheck := []
  search : WalkState ProjectState
  ending : Except Failure Unit := .ok ()

def Checks.results (c : Checks) : Except Failure (List (Except Failure Nat)) :=
  c.ending.map fun _ => c.made.map FileCheck.result

/-- Checks the loops of each file in turn. -/
def checkFiles (search : LoopSearch ProjectState) :
    WalkState ProjectState → List (String × TranslationUnit) → Checks
  | w, [] => { search := w }
  | w, (path, unit) :: rest =>
    match unit.loops path with
    | .error e => { search := w, ending := .error e }
    | .ok loops =>
      let checked := (checkLoops search unit loops).run w
      let later := checkFiles search checked.2 rest
      { later with made := ⟨path, loops, checked.1⟩ :: later.made }

theorem run_analyzeTarget_error {search : LoopSearch ProjectState} {path : String}
    {unit : TranslationUnit} {e : Failure} (hl : unit.loops path = .error e) (st : AnalysisState) :
    (analyzeTarget search path unit).run st = (.error e, st) := by
  unfold analyzeTarget analyzeFile
  rw [hl]
  rfl

theorem run_analyzeFile_ok {search : LoopSearch ProjectState}
    (hs : search.Mirrored ProjectState.Relogged) {path : String} {unit : TranslationUnit}
    {loops : List Node} (hl : unit.loops path = .ok loops) {w : WalkState ProjectState}
    {st : AnalysisState} (hw : w.Relogged st.search) :
    let check : FileCheck := ⟨path, loops, ((checkLoops search unit loops).run w).1⟩
    ∃ st', (analyzeFile search path unit).run st = (.ok check.result, st') ∧
      ((checkLoops search unit loops).run w).2.Relogged st'.search := by
  intro check
  unfold analyzeFile
  rw [hl, Task.ofExcept_ok_bind]
  generalize htext : (s!"{path}: {loops.length} loops") = text
  have hwrite : (Log.write .debug .command text).run st =
      (.ok (), HasLog.append ⟨.debug, .command, text⟩ st) := rfl
  -- The loops are checked after one more line in the log, which no check reads.
  obtain ⟨hsame, hafter⟩ := mirrors_checkLoops hs unit loops w
    (HasLog.append ⟨.debug, .command, text⟩ st.search) (hw.trans (.append _ _))
  have hattempt : (Task.attempt (inSearch (checkLoops search unit loops))).run
      (HasLog.append ⟨.debug, .command, text⟩ st) = (.ok check.outcome, { st with
        search := ((checkLoops search unit loops).run
          (HasLog.append ⟨.debug, .command, text⟩ st.search)).2 }) := by
    rw [Task.run_attempt, run_inSearch]
    exact congrArg (fun r => (Except.ok r, _)) hsame.symm
  have hresult : check.result = check.outcome.map fun _ => loops.length := rfl
  rw [Task.run_bind_ok hwrite, Task.run_bind_ok hattempt, hresult]
  cases check.outcome with
  | error e => exact ⟨_, rfl, WalkState.Relogged.trans hafter (.append _ _)⟩
  | ok _ => exact ⟨_, rfl, hafter⟩

/-- The analysis of a target alone is the check of its loops. -/
theorem run_analyzeTarget_ok {search : LoopSearch ProjectState}
    (hs : search.Mirrored ProjectState.Relogged) {path : String} {unit : TranslationUnit}
    {loops : List Node} (hl : unit.loops path = .ok loops) {w : WalkState ProjectState}
    {st : AnalysisState} (hw : w.Relogged st.search) :
    let check : FileCheck := ⟨path, loops, ((checkLoops search unit loops).run w).1⟩
    ∃ st', (analyzeTarget search path unit).run st = (.ok check.result, st') ∧
      ((checkLoops search unit loops).run w).2.Relogged st'.search := by
  obtain ⟨mid, hrun, hsearch⟩ := run_analyzeFile_ok hs hl hw
  unfold analyzeTarget
  rw [Task.run_bind_ok hrun]
  exact ⟨_, rfl, hsearch.trans (AnalysisState.advances path _ mid).1⟩

/-- The analysis of the targets one after the other is the check of their loops in turn. -/
theorem run_inTurn_targets {search : LoopSearch ProjectState}
    (hs : search.Mirrored ProjectState.Relogged) (units : List (String × TranslationUnit))
    {w : WalkState ProjectState} {st : AnalysisState} (hw : w.Relogged st.search) :
    let r := (Task.inTurn (units.map fun (path, unit) => analyzeTarget search path unit)).run st
    r.1 = (checkFiles search w units).results ∧
      (checkFiles search w units).search.Relogged r.2.search := by
  induction units generalizing w st with
  | nil => exact ⟨rfl, hw⟩
  | cons entry rest ih =>
    obtain ⟨path, unit⟩ := entry
    unfold checkFiles
    rw [List.map_cons, Task.inTurn]
    cases hl : unit.loops path with
    | error e =>
      rw [Task.run_bind_error (run_analyzeTarget_error hl st)]
      exact ⟨rfl, hw⟩
    | ok loops =>
      obtain ⟨mid, hrun, hsearch⟩ := run_analyzeTarget_ok hs hl hw
      obtain ⟨hres, hlast⟩ := ih hsearch
      rw [Task.run_bind_ok hrun, Task.run_bind_pure, hres]
      refine ⟨?_, hlast⟩
      unfold Checks.results
      dsimp only
      cases (checkFiles search ((checkLoops search unit loops).run w).2 rest).ending <;> rfl

theorem run_analyzeTargets_alone (hj : moreWorkers a.settings.jobs 1 = .ok false)
    {search : LoopSearch ProjectState} (hs : search.Mirrored ProjectState.Relogged)
    (units : List (String × TranslationUnit)) (st : AnalysisState) :
    ((a.analyzeTargets search units).run st).1 = (checkFiles search st.search units).results ∧
      (checkFiles search st.search units).search.Relogged
        ((a.analyzeTargets search units).run st).2.search := by
  have hrun : (a.analyzeTargets search units).run st =
      (Task.inTurn (units.map fun (path, unit) => analyzeTarget search path unit)).run
        { st with progress := { total := units.length } } := by
    unfold analyzeTargets
    rw [hj]
    rfl
  rw [hrun]
  exact run_inTurn_targets hs units (.refl _)

/-- The counts of loops and of errors. -/
def tally (st : AnalysisState) : Nat × Nat :=
  (st.stats.loops, st.stats.errors)

/-- What the analysis of a target adds to the counts. -/
def worth : Except Failure (Except Failure Nat) → Nat × Nat
  | .ok (.ok loops) => (loops, 0)
  | .ok (.error _) => (0, 1)
  | .error _ => 0

theorem pays_analyzeTarget (search : LoopSearch ProjectState) (path : String)
    (unit : TranslationUnit) : Task.Pays tally worth 0 (analyzeTarget search path unit) := by
  have hfile : Task.Pays tally worth 0 (analyzeFile search path unit) := by
    unfold analyzeFile
    cases unit.loops path with
    | error e => exact .done rfl
    | ok loops =>
      rw [Task.ofExcept_ok_bind]
      refine .free_bind (fun _ => rfl) (.attempt_bind (.within _ fun _ _ => rfl) fun outcome => ?_)
      cases outcome with
      | error e => exact .free_bind (fun _ => rfl) (.modify_bind (0, 1) (fun _ => rfl) (.done rfl))
      | ok _ => exact .modify_bind (loops.length, 0) (fun _ => rfl) (.done (zero_add _))
  refine hfile.bind (fun outcome => .free_bind (fun st => ?_) (.done rfl)) fun _ => rfl
  rw [tally, (st.advances path _).2.2, tally]

/-- Between the two states no lines were read, and nothing but loops and errors was counted. -/
structure Untouched (st st' : AnalysisState) : Prop where
  lines : st'.lines = st.lines
  files : st'.stats.files = st.stats.files
  reports : st'.stats.reports = st.stats.reports
  suppressed : st'.stats.suppressed = st.stats.suppressed

/-- The analysis of a target fails only where its loops cannot be listed, and a number that it gives
is that of the loops. -/
def Fits (target : String × TranslationUnit) : Except Failure (Except Failure Nat) → Prop
  | .ok outcome =>
    ∃ loops, target.2.loops target.1 = .ok loops ∧ ∀ n, outcome = .ok n → n = loops.length
  | .error e => target.2.loops target.1 = .error e

theorem shared_analyzeTarget (search : LoopSearch ProjectState) (target : String × TranslationUnit)
    (st : AnalysisState) :
    Task.Shared (Untouched st) (Fits target) (analyzeTarget search target.1 target.2) := by
  have hfile : Task.Shared (Untouched st) (Fits target) (analyzeFile search target.1 target.2) := by
    unfold analyzeFile
    cases hl : target.2.loops target.1 with
    | error e => exact .done hl
    | ok loops =>
      rw [Task.ofExcept_ok_bind]
      refine .modify_bind (fun _ h => ⟨h.1, h.2, h.3, h.4⟩) (.attempt_bind (.within
        (fun _ _ => trivial) (fun _ _ h _ => ⟨h.1, h.2, h.3, h.4⟩) (.any _)) fun outcome _ => ?_)
      cases outcome with
      | error e =>
        refine .modify_bind (fun _ h => ⟨h.1, h.2, h.3, h.4⟩)
          (.modify_bind (fun _ h => ⟨h.1, h.2, h.3, h.4⟩) (.done ⟨loops, hl, by simp⟩))
      | ok _ =>
        refine .modify_bind (fun _ h => ⟨h.1, h.2, h.3, h.4⟩) (.done ⟨loops, hl, ?_⟩)
        rintro _ ⟨⟩
        rfl
  refine hfile.andThen (fun outcome hfits => .modify_bind (fun st' h => ?_) (.done hfits))
    fun _ h => h
  obtain ⟨_, hlines, hstats⟩ := st'.advances target.1 (outcome.toOption.getD 0)
  refine ⟨hlines.trans h.lines, ?_, ?_, ?_⟩
  · rw [hstats, h.files]
  · rw [hstats, h.reports]
  · rw [hstats, h.suppressed]

/-- The loops of the targets that were checked to their end. -/
def loopsIn (outcomes : List (Except Failure Nat)) : Nat :=
  (outcomes.filterMap Except.toOption).sum

/-- The number of the other targets. -/
def failuresIn (outcomes : List (Except Failure Nat)) : Nat :=
  outcomes.countP (·.toOption.isNone)

theorem sum_worth (outcomes : List (Except Failure Nat)) :
    (outcomes.map fun outcome => worth (.ok outcome)).sum =
      (loopsIn outcomes, failuresIn outcomes) := by
  induction outcomes with
  | nil => rfl
  | cons outcome rest ih =>
    rw [List.map_cons, List.sum_cons, ih]
    cases outcome with
    | error e =>
      refine Prod.ext (Nat.zero_add _) ?_
      simp [worth, failuresIn, Except.toOption, Nat.add_comm]
    | ok n => simp [worth, loopsIn, failuresIn, Except.toOption]

/-- Every number of workers leads from the targets to what their analysis comes to by steps of the
targets. -/
theorem reaches_analyzeTargets {more : Bool} (hj : moreWorkers a.settings.jobs 1 = .ok more)
    (search : LoopSearch ProjectState) (units : List (String × TranslationUnit))
    (st : AnalysisState) :
    ∃ jobs, WorkerPool.Reaches
        (units.map fun target => analyzeTarget search target.1 target.2,
          { st with progress := { total := units.length } })
        (jobs, ((a.analyzeTargets search units).run st).2) ∧
      WorkerPool.Gathered ((a.analyzeTargets search units).run st).1 jobs := by
  unfold analyzeTargets
  rw [Task.run_bind_ok (show (modify _ : Task AnalysisState PUnit).run st = (.ok ⟨⟩, _) from rfl),
    hj, Task.ofExcept_ok_bind]
  cases more with
  | true => exact WorkerPool.reaches_pool _ _ _ _
  | false =>
    rw [if_neg Bool.false_ne_true, Task.run_inTurn]
    exact WorkerPool.reaches_gather 0 [] _ _

/-- Targets are analysed only if it is known whether there are several workers. -/
theorem workers_of_analyzeTargets {search : LoopSearch ProjectState}
    {units : List (String × TranslationUnit)} {outcomes : List (Except Failure Nat)}
    {st st' : AnalysisState} (h : (a.analyzeTargets search units).run st = (.ok outcomes, st')) :
    ∃ more, moreWorkers a.settings.jobs 1 = .ok more := by
  unfold analyzeTargets at h
  obtain ⟨_, _, _, h⟩ := Task.run_bind_eq_ok h
  obtain ⟨more, hmore, _⟩ := Task.ofExcept_bind_eq_ok h
  exact ⟨more, hmore⟩

/-- The outcomes of the targets and what was counted for them. -/
structure Tallied (units : List (String × TranslationUnit)) (st : AnalysisState)
    (outcomes : List (Except Failure Nat)) (st' : AnalysisState) : Prop where
  fits : List.Forall₂ (fun target outcome => Fits target (.ok outcome)) units outcomes
  untouched : Untouched st st'
  loops : st'.stats.loops = st.stats.loops + loopsIn outcomes
  errors : st'.stats.errors = st.stats.errors + failuresIn outcomes

/-- Whatever turns the workers take, the targets are all analysed and counted, or the analysis fails
for the first target whose loops cannot be listed. -/
theorem analyzeTargets_cases {more : Bool} (hj : moreWorkers a.settings.jobs 1 = .ok more)
    (search : LoopSearch ProjectState) (units : List (String × TranslationUnit))
    (st : AnalysisState) :
    (∃ outcomes st', (a.analyzeTargets search units).run st = (.ok outcomes, st') ∧
      Tallied units st outcomes st') ∨
    ∃ before target after e st', units = before ++ target :: after ∧
      (∀ other ∈ before, ∃ loops, other.2.loops other.1 = .ok loops) ∧
      target.2.loops target.1 = .error e ∧
      (a.analyzeTargets search units).run st = (.error e, st') ∧ Untouched st st' := by
  obtain ⟨jobs, hreaches, hgathered⟩ := reaches_analyzeTargets hj search units st
  rcases hrun : (a.analyzeTargets search units).run st with ⟨result, st'⟩
  rw [hrun] at hreaches hgathered
  have hshared : List.Forall₂ (fun target => Task.Shared (Untouched st) (Fits target)) units
      (units.map fun target => analyzeTarget search target.1 target.2) :=
    List.forall₂_map_right_iff.mpr
      (List.forall₂_same.mpr fun target _ => shared_analyzeTarget search target st)
  obtain ⟨huntouched, hfits⟩ := hreaches.shared hshared ⟨rfl, rfl, rfl, rfl⟩
  cases hgathered with
  | failed results e later =>
    obtain ⟨before, target, after, rfl, hbefore, ⟨htarget⟩, _⟩ := forall₂_middle hfits
    refine .inr ⟨before, target, after, e, st', rfl, fun other ho => ?_, htarget, rfl, huntouched⟩
    obtain ⟨_, loops, hloops, _⟩ := forall₂_left (forall₂_ended hbefore) other ho
    exact ⟨loops, hloops⟩
  | all outcomes =>
    have hpays : List.Forall₂ (Task.Pays tally worth) (units.map fun _ => 0)
        (units.map fun target => analyzeTarget search target.1 target.2) :=
      List.forall₂_map_left_iff.mpr (List.forall₂_map_right_iff.mpr
        (List.forall₂_same.mpr fun target _ => pays_analyzeTarget search target.1 target.2))
    obtain ⟨paid, hpaid, htally⟩ := hreaches.pays hpays (tally st) (by simp [tally])
    rw [paid_ended hpaid, sum_worth] at htally
    exact .inl ⟨outcomes, st', rfl, forall₂_ended hfits, huntouched, congrArg Prod.fst htally,
      congrArg Prod.snd htally⟩

/-- The search of a run whose groundwork and configured roots are known. -/
def searchOf (a : Analyzer) (files : FileTree) (g : Groundwork) (roots : List String) :
    LoopSearch ProjectState where
  registry := g.registry
  resolve := (a.resolverOf files g.project g.targets roots).resolve
  announce := true
  bound := a.program.nodeCount + 1

theorem mirrored_searchOf (a : Analyzer) (files : FileTree) (g : Groundwork) (roots : List String) :
    (a.searchOf files g roots).Mirrored ProjectState.Relogged :=
  have hr := Resolver.mirrored_relogged (a.resolverOf files g.project g.targets roots)
  ⟨hr.resolve, hr.log⟩

/-- The part of a run after its search. -/
def conclude (a : Analyzer) (files : FileTree) : Task AnalysisState (List Report) := do
  tellProgress
  let kept ← a.suppress files (← get).search.reports
  count fun n => { n with reports := kept.length }
  logStats
  return Report.sort kept

theorem searchTargets_eq (a : Analyzer) (files : FileTree) (g : Groundwork) :
    a.searchTargets files g.registry g.project g.targets g.units = (do
      let roots ← Task.ofExcept (a.settings.projectRoots files)
      let _ ← a.analyzeTargets (a.searchOf files g roots) g.units
      a.conclude files) := rfl

theorem run_tellProgress (st : AnalysisState) : tellProgress.run st = (.ok (), st.told) := rfl

theorem run_logStats (st : AnalysisState) : ∃ st', logStats.run st = (.ok (), st') ∧
    st.search.Relogged st'.search ∧ st'.lines = st.lines ∧ st'.stats = st.stats := by
  have hkeeps : Task.Keeps (fun now : AnalysisState => st.search.Relogged now.search ∧
      now.lines = st.lines ∧ now.stats = st.stats) logStats := by
    unfold logStats
    refine .bind .get fun _ => .bind (.forIn fun line _ => .bind ?_ fun _ => .pure _) fun _ =>
      .pure _
    exact .modify fun now h => ⟨h.1.trans (.append _ _), h.2⟩
  exact ⟨_, rfl, hkeeps st ⟨.refl _, rfl, rfl⟩⟩

theorem run_conclude {st mid : AnalysisState} {kept : List Report}
    (h : (a.suppress files st.search.reports).run st.told = (.ok kept, mid)) :
    ∃ st', (a.conclude files).run st = (.ok (Report.sort kept), st') ∧
      mid.search.Relogged st'.search ∧ st'.lines = mid.lines ∧
      st'.stats = { mid.stats with reports := kept.length } := by
  obtain ⟨st', hlog, hsearch, hlines, hstats⟩ :=
    run_logStats { mid with stats.reports := kept.length }
  refine ⟨st', ?_, hsearch, hlines, hstats⟩
  have hcount : (count fun n => { n with reports := kept.length }).run mid =
      (.ok (), { mid with stats.reports := kept.length }) := rfl
  unfold conclude
  rw [Task.run_bind_ok (run_tellProgress st), Task.run_bind_ok (Task.run_get _)]
  refine (Task.run_bind_ok h).trans ?_
  rw [Task.run_bind_ok hcount, Task.run_bind_ok hlog]
  rfl

/-- A run that comes to its end returns the reports that are not marked, in order. -/
theorem concluded_of_run {st st' : AnalysisState} {reports : List Report}
    (h : (a.conclude files).run st = (.ok reports, st')) :
    let kept := st.search.reports.filter fun r => !a.drops (st.lines.seen files) r
    reports = Report.sort kept ∧ st.search.Relogged st'.search ∧ st'.stats = { st.stats with
      suppressed := st.stats.suppressed + st.search.reports.countP (a.drops (st.lines.seen files))
      reports := kept.length } := by
  have hend := h
  unfold conclude at h
  rw [Task.run_bind_ok (run_tellProgress st), Task.run_bind_ok (Task.run_get _)] at h
  obtain ⟨kept, mid, hsuppress, _⟩ := Task.run_bind_eq_ok h
  replace hsuppress : (a.suppress files st.search.reports).run st.told = (.ok kept, mid) :=
    hsuppress
  obtain ⟨last, hlast, hsearch, _, hstats⟩ := run_conclude hsuppress
  rw [hlast] at hend
  cases hend
  obtain ⟨rfl, hstats', hconsults⟩ := run_suppress (fun _ => rfl) hsuppress
  refine ⟨rfl, ((WalkState.Relogged.append _ _).trans hconsults.search).trans hsearch, ?_⟩
  rw [hstats, hstats']
  rfl

end Analyzer

end NPlusOne
