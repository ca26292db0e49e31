import NPlusOne.Proofs.ResolverSteady
import NPlusOne.Proofs.AnalysisParts

namespace NPlusOne

namespace AnalysisState

/-- What outlives a run is what a new analyzer would come by: the units are those of the parser, the
lines those of the files. -/
structure Faithful (f : FrontEnd) (st : AnalysisState) : Prop where
  units : f.Agrees st.search.project.cache
  lines : ∀ path, st.lines.seen f.files path = SourceLines.read f.files path

/-- Two analyses that agree on everything a run shows. What their projects keep has the property on
both sides, and the lines are those of the files. -/
structure Twins (files : FileTree) (inv : ProjectState → Prop) (st st' : AnalysisState) : Prop where
  search : WalkState.Alike (fun p p' => inv p ∧ inv p') st.search st'.search
  stats : st.stats = st'.stats
  lines : ∀ path, st.lines.seen files path = SourceLines.read files path
  lines' : ∀ path, st'.lines.seen files path = SourceLines.read files path

theorem Twins.mono {files : FileTree} {inv inv' : ProjectState → Prop} {st st' : AnalysisState}
    (h : Twins files inv st st') (hinv : ∀ p, inv p → inv' p) : Twins files inv' st st' where
  search := ⟨h.search.memo, h.search.reports, h.search.walked,
    h.search.project.imp (hinv _) (hinv _)⟩
  stats := h.stats
  lines := h.lines
  lines' := h.lines'

end AnalysisState

/-- A change of the log does not take the property away. -/
def ProjectState.LogBlind (inv : ProjectState → Prop) : Prop :=
  ∀ p p', p.Relogged p' → inv p → inv p'

theorem WalkState.Alike.relogged {inv : ProjectState → Prop} (hinv : ProjectState.LogBlind inv)
    {st st' now now' : WalkState ProjectState} (h : Alike (fun p p' => inv p ∧ inv p') st st')
    (hnow : st.Relogged now) (hnow' : st'.Relogged now') :
    Alike (fun p p' => inv p ∧ inv p') now now' where
  memo := hnow.memo.symm.trans (h.memo.trans hnow'.memo)
  reports := hnow.reports.symm.trans (h.reports.trans hnow'.reports)
  walked := hnow.walked.symm.trans (h.walked.trans hnow'.walked)
  project := ⟨hinv _ _ hnow.project h.project.1, hinv _ _ hnow'.project h.project.2⟩

theorem Task.Determined.mirrors {σ α : Type} {holds : σ → Prop} {task : Task σ α}
    (h : Task.Determined holds task) :
    Task.Mirrors (fun st st' => holds st ∧ holds st') task := by
  obtain ⟨result, h⟩ := h
  rintro st st' ⟨hst, hst'⟩
  exact ⟨(h st hst).1.trans (h st' hst').1.symm, (h st hst).2, (h st' hst').2⟩

namespace Analyzer

theorem mirrors_count {files : FileTree} {inv : ProjectState → Prop} (f : Stats → Stats) :
    Task.Mirrors (AnalysisState.Twins files inv) (count f) :=
  .modify fun _ _ h => ⟨h.search, congrArg f h.stats, h.lines, h.lines'⟩

section

variable {a : Analyzer} {files : FileTree} {inv : ProjectState → Prop}
  (hinv : ProjectState.LogBlind inv)

include hinv

theorem mirrors_write (level : Log.Level) (channel : Log.Channel) (text : String) :
    Task.Mirrors (AnalysisState.Twins files inv) (Log.write level channel text) :=
  .modify fun _ _ h =>
    ⟨h.search.relogged hinv (.append _ _) (.append _ _), h.stats, h.lines, h.lines'⟩

theorem mirrors_tellProgress : Task.Mirrors (AnalysisState.Twins files inv) tellProgress :=
  fun _ _ h => ⟨rfl, h.search.relogged hinv (.append _ _) (.append _ _), h.stats, h.lines, h.lines'⟩

theorem mirrors_sourceLines (path : String) :
    Task.Mirrors (AnalysisState.Twins files inv) (sourceLines files path) := by
  intro st st' h
  obtain ⟨hres, hstats, hconsults⟩ := run_sourceLines files path st
  obtain ⟨hres', hstats', hconsults'⟩ := run_sourceLines files path st'
  refine ⟨hres.trans ((h.lines path).trans ((h.lines' path).symm.trans hres'.symm)), ?_, ?_,
    fun other => (hconsults.lines other).trans (h.lines other),
    fun other => (hconsults'.lines other).trans (h.lines' other)⟩
  · exact h.search.relogged hinv hconsults.search hconsults'.search
  · exact hstats.trans (h.stats.trans hstats'.symm)

theorem mirrors_suppress (reports : List Report) :
    Task.Mirrors (AnalysisState.Twins files inv) (a.suppress files reports) :=
  stepwise_suppress (Task.Mirrors.stepwise _) mirrors_count (mirrors_sourceLines hinv) reports

theorem mirrors_logStats : Task.Mirrors (AnalysisState.Twins files inv) logStats := by
  unfold logStats
  refine .get_bind (fun st st' h => by rw [h.stats]) fun st => ?_
  refine .bind (.forIn fun line _ => ?_) fun _ => .pure _
  exact (mirrors_write hinv _ _ _).bind fun _ => .pure _

theorem mirrors_registry (units : List TranslationUnit) :
    Task.Mirrors (AnalysisState.Twins files inv) (a.registry units) :=
  stepwise_registry (Task.Mirrors.stepwise _) (mirrors_write hinv) units

theorem mirrors_allSourceFiles :
    Task.Mirrors (AnalysisState.Twins files inv) (a.settings.allSourceFiles files) :=
  .bind (.ofExcept _) fun _ => (mirrors_write hinv _ _ _).bind fun _ => .pure _

/-- With one worker the targets are analysed one after the other. -/
theorem mirrors_analyzeTargets (hj : moreWorkers a.settings.jobs 1 ≠ .ok true)
    {search : LoopSearch ProjectState} (hs : search.Mirrored fun p p' => inv p ∧ inv p')
    (units : List (String × TranslationUnit)) :
    Task.Mirrors (AnalysisState.Twins files inv) (a.analyzeTargets search units) := by
  refine stepwise_analyzeTargets (Task.Mirrors.stepwise _)
    (fun _ => .modify fun _ _ h => ⟨h.search, h.stats, h.lines, h.lines'⟩) (fun path unit _ => ?_)
    fun hmore => absurd hmore hj
  refine stepwise_analyzeTarget (Task.Mirrors.stepwise _) (mirrors_write hinv) mirrors_count
    (fun loops => .modify fun st st' h => ?_) fun loops _ => ?_
  · obtain ⟨hsearch, hlines, hstats⟩ := st.advances path loops
    obtain ⟨hsearch', hlines', hstats'⟩ := st'.advances path loops
    exact ⟨h.search.relogged hinv hsearch hsearch', hstats.trans (h.stats.trans hstats'.symm),
      hlines ▸ h.lines, hlines' ▸ h.lines'⟩
  · exact .attempt (.within (fun _ _ h => h.search)
      (fun _ _ _ _ h hw => ⟨hw, h.stats, h.lines, h.lines'⟩) (mirrors_checkLoops hs unit loops))

end

theorem logBlind_consistent (r : Resolver) : ProjectState.LogBlind r.Consistent := by
  rintro p p' ⟨hindex, log, hcache⟩ h
  refine ⟨?_, hindex ▸ h.index⟩
  rw [hcache]
  exact h.cache

theorem mirrored_consistent {r : Resolver} {search : LoopSearch ProjectState}
    (hr : search.resolve = r.resolve) (hs : r.frontEnd.program.Single) :
    search.Mirrored fun p p' => r.Consistent p ∧ r.Consistent p' where
  resolve callee := by
    rw [hr]
    exact (Resolver.resolve_determined hs callee).mirrors
  log _ _ _ hp := hp.imp (·.append _) (·.append _)

/-- No index is made yet, and the units that are kept are what the parser gives. -/
def Unindexed (f : FrontEnd) (p : ProjectState) : Prop :=
  f.Agrees p.cache ∧ p.index = none

theorem logBlind_unindexed (f : FrontEnd) : ProjectState.LogBlind (Unindexed f) := by
  rintro p p' ⟨hindex, log, hcache⟩ ⟨hagrees, hnone⟩
  refine ⟨?_, hindex ▸ hnone⟩
  rw [hcache]
  exact hagrees

section

variable {a : Analyzer} {files : FileTree} (hs : a.program.Single)

include hs

/-- A unit that is kept and one that is parsed now are the same. -/
theorem mirrors_unitOf (path : String) :
    Task.Mirrors (AnalysisState.Twins files (Unindexed (a.frontEnd files)))
      (a.unitOf files path) := by
  intro st st' h
  obtain ⟨⟨hagrees, hindex⟩, hagrees', hindex'⟩ := h.search.project
  obtain ⟨hres, hkept⟩ := (FrontEnd.loads_load (a.frontEnd files) path _).outcome_eq hs hagrees
  obtain ⟨hres', hkept'⟩ := (FrontEnd.loads_load (a.frontEnd files) path _).outcome_eq hs hagrees'
  rw [run_unitOf, run_unitOf]
  refine ⟨congrArg Task.caught (hres.trans hres'.symm), ⟨?_, h.stats, h.lines, h.lines'⟩⟩
  exact ⟨h.search.memo, h.search.reports, h.search.walked, ⟨hkept, hindex⟩, hkept', hindex'⟩

theorem mirrors_parseTargets (paths : List String) :
    Task.Mirrors (AnalysisState.Twins files (Unindexed (a.frontEnd files)))
      (a.parseTargets files paths) :=
  stepwise_parseTargets (Task.Mirrors.stepwise _) (mirrors_write (logBlind_unindexed _))
    mirrors_count (mirrors_unitOf hs) paths

theorem mirrors_parseOthers (paths : List String) :
    Task.Mirrors (AnalysisState.Twins files (Unindexed (a.frontEnd files)))
      (a.parseOthers files paths) :=
  stepwise_parseOthers (Task.Mirrors.stepwise _) (mirrors_write (logBlind_unindexed _))
    (mirrors_unitOf hs) paths

/-- What the end of a run shows is the same on both sides, and the units that are kept are what the
parser gives. -/
theorem mirrors_searchTargets (hj : moreWorkers a.settings.jobs 1 ≠ .ok true)
    (registry : Registry) (project targets : List String)
    (units : List (String × TranslationUnit)) :
    Task.MirrorsInto (AnalysisState.Twins files (Unindexed (a.frontEnd files)))
      (a.searchTargets files registry project targets units)
      (AnalysisState.Twins files fun p => (a.frontEnd files).Agrees p.cache) := by
  unfold searchTargets
  refine .bind (.ofExcept _) (fun _ _ h => h.mono fun _ hp => hp.1) fun configured => ?_
  dsimp only
  generalize hr : (⟨a.frontEnd files, .make files project
    (some (sortUnique (configured ++ targets.map Path.directory)))⟩ : Resolver) = r
  have hf : r.frontEnd = a.frontEnd files := by rw [← hr]
  have hinv := logBlind_consistent r
  -- Before there is an index, faithful units are all that the resolver needs on both sides.
  refine .given (AnalysisState.Twins files r.Consistent) ?_ (.of_mirrors ?_ ?_)
  · refine fun _ _ h => h.mono fun p hp => ⟨hf ▸ hp.1, ?_⟩
    simp [hp.2]
  · refine (mirrors_analyzeTargets hinv hj (mirrored_consistent rfl (hf ▸ hs)) units).bind
      fun _ => ?_
    refine (mirrors_tellProgress hinv).bind fun _ => ?_
    refine .get_bind (fun st st' h => by rw [h.search.reports]) fun st => ?_
    refine (mirrors_suppress hinv _).bind fun kept => (mirrors_count _).bind fun _ => ?_
    exact (mirrors_logStats hinv).bind fun _ => .pure _
  · exact fun _ _ h => h.mono fun p hp => hf ▸ hp.cache

/-- A run shows the same from all states that are faithful to the front end, and leaves such
states. -/
theorem run_mirrors (hj : moreWorkers a.settings.jobs 1 ≠ .ok true) (value : Value) :
    Task.MirrorsInto
      (fun st st' => st.Faithful (a.frontEnd files) ∧ st'.Faithful (a.frontEnd files))
      (a.run files value)
      (AnalysisState.Twins files fun p => (a.frontEnd files).Agrees p.cache) := by
  rintro st st' ⟨h, h'⟩
  unfold run
  rw [Task.run_bind_ok (show reset.run st = (.ok (), _) from rfl),
    Task.run_bind_ok (show reset.run st' = (.ok (), _) from rfl)]
  have hinv := logBlind_unindexed (a.frontEnd files)
  have hend (st st' : AnalysisState)
      (h : AnalysisState.Twins files (Unindexed (a.frontEnd files)) st st') :
      AnalysisState.Twins files (fun p => (a.frontEnd files).Agrees p.cache) st st' :=
    h.mono fun _ hp => hp.1
  refine Task.MirrorsInto.bind (mirrors_allSourceFiles hinv) hend (fun configured => ?_) _ _
    ⟨⟨rfl, rfl, rfl, ⟨h.units, rfl⟩, h'.units, rfl⟩, rfl, h.lines, h'.lines⟩
  refine .bind (.ofExcept _) hend fun paths => .bind (.ofExcept _) hend fun project => ?_
  refine .bind (mirrors_write hinv _ _ _) hend fun _ => ?_
  refine .bind (mirrors_parseTargets hs _) hend fun units => ?_
  refine .bind (mirrors_count _) hend fun _ => ?_
  refine .bind (mirrors_parseOthers hs _) hend fun others => ?_
  refine .bind (mirrors_registry hinv _) hend fun registry => ?_
  split
  next => exact .of_mirrors ((mirrors_write hinv _ _ _).bind fun _ => .pure _) hend
  next => exact mirrors_searchTargets hs hj registry project _ units

end

/-- What a run shows when it is over: its reports or its failure, the reports before suppression,
the walked bodies and the counts. -/
structure Outcome where
  result : Except Failure (List Report)
  emitted : List Report
  walked : List Cursor
  stats : Stats

def outcome (a : Analyzer) (files : FileTree) (value : Value) (st : AnalysisState) : Outcome :=
  let r := (a.run files value).run st
  ⟨r.1, r.2.search.reports, r.2.search.walked, r.2.stats⟩

/-- The outcomes of runs that follow each other. A run that fails does not end the series. -/
def outcomes (a : Analyzer) (files : FileTree) : AnalysisState → List Value → List Outcome
  | _, [] => []
  | st, value :: rest =>
    a.outcome files value st :: a.outcomes files ((a.run files value).run st).2 rest

/-- The outcomes of runs on one new analyzer whose workers, if there are some, take the given
turns. -/
def series (settings : Settings) (program : Program) (schedule : Nat → List Turn)
    (files : FileTree) (values : List Value) : Except Failure (List Outcome) :=
  match (start settings program).run {} with
  | (.ok a, st) => .ok ({ a with schedule }.outcomes files st values)
  | (.error e, _) => .error e

section

variable {a : Analyzer} {files : FileTree} (hs : a.program.Single)
  (hj : moreWorkers a.settings.jobs 1 ≠ .ok true)

include hs hj

theorem outcome_eq {st st' : AnalysisState} (h : st.Faithful (a.frontEnd files))
    (h' : st'.Faithful (a.frontEnd files)) (value : Value) :
    a.outcome files value st = a.outcome files value st' := by
  obtain ⟨hres, htwins⟩ := run_mirrors hs hj value st st' ⟨h, h'⟩
  simp only [outcome, hres, htwins.search.reports, htwins.search.walked, htwins.stats]

theorem run_faithful {st : AnalysisState} (h : st.Faithful (a.frontEnd files)) (value : Value) :
    ((a.run files value).run st).2.Faithful (a.frontEnd files) := by
  obtain ⟨_, htwins⟩ := run_mirrors hs hj value st st ⟨h, h⟩
  exact ⟨htwins.search.project.1, htwins.lines⟩

/-- In a series of runs each one is as if it were the first. -/
theorem outcomes_eq_map {st st' : AnalysisState} (h : st.Faithful (a.frontEnd files))
    (h' : st'.Faithful (a.frontEnd files)) (values : List Value) :
    a.outcomes files st values = values.map (a.outcome files · st') := by
  induction values generalizing st with
  | nil => rfl
  | cons value rest ih =>
    rw [outcomes, List.map_cons, outcome_eq hs hj h h', ih (run_faithful hs hj h value)]

end

theorem start_faithful {settings : Settings} {program : Program} {a : Analyzer}
    {st : AnalysisState} (h : (start settings program).run {} = (.ok a, st)) :
    a.program = program ∧ a.settings = settings ∧ ∀ files, st.Faithful (a.frontEnd files) := by
  have hopen (options : CompilerOptions) :
      Task.Keeps (fun c : UnitCache => c.units = []) (FrontEnd.start options) :=
    .bind (.ofExcept _) fun _ => .bind (.modify fun _ h => h) fun _ => .pure _
  have hkeeps : Task.Keeps
      (fun st : AnalysisState => st.search.project.cache.units = [] ∧ st.lines = [])
      (start settings program) := by
    refine .bind (.ofExcept _) fun _ => .bind (.ofExcept _) fun _ => .bind ?_ fun _ => .pure _
    intro st hst
    rw [run_inCache]
    exact ⟨hopen _ _ hst.1, hst.2⟩
  have hgiven : Task.Ensures (fun _ => True) (start settings program)
      fun a _ => a.program = program ∧ a.settings = settings :=
    .after fun _ => .after fun _ => .after fun _ => .pure fun _ _ => ⟨rfl, rfl⟩
  have hst := hkeeps {} ⟨rfl, rfl⟩
  rw [h] at hst
  obtain ⟨hunits, hlines⟩ := hst
  obtain ⟨hprogram, hsettings⟩ := hgiven {} trivial a (by rw [h])
  refine ⟨hprogram, hsettings, fun files => ⟨?_, fun path => by rw [hlines]; rfl⟩⟩
  intro path loaded hfind
  simp only at hunits
  simp [UnitCache.find?, hunits] at hfind

/-- With one worker, what a run shows does not depend on the runs before it on the same analyzer: it
is what the run shows alone on a new one. -/
theorem series_eq_alone {program : Program} (hs : program.Single) {settings : Settings}
    (hj : moreWorkers settings.jobs 1 ≠ .ok true) (schedule : Nat → List Turn) (files : FileTree)
    (earlier later : List Value) (value : Value) :
    (series settings program schedule files (earlier ++ value :: later)).map
        (·[earlier.length]?) =
      (series settings program schedule files [value]).map (·[0]?) := by
  unfold series
  rcases h : (start settings program).run {} with ⟨e | a, st⟩
  · rfl
  · obtain ⟨hprogram, hsettings, hst⟩ := start_faithful h
    have hall (values : List Value) :=
      outcomes_eq_map (a := { a with schedule }) (hprogram ▸ hs) (hsettings ▸ hj) (hst files)
        (hst files) values
    simp [hall, Except.map]

end Analyzer

namespace SampleRun

/-- A run that follows one which failed still finds both uses and drops the marked one. -/
theorem second_as_alone : (program none).Single ∧
    ((Analyzer.series settings (program none) Turn.slices marked [.int 3, target]).toOption.bind
      (·[1]?)).map Analyzer.Outcome.stats =
        some { files := 1, reports := 1, suppressed := 1, errors := 1 } ∧
    (Analyzer.series settings (program none) Turn.slices marked ([.int 3] ++ [target])).map
        (·[1]?) =
      (Analyzer.series settings (program none) Turn.slices marked [target]).map (·[0]?) := by
  have hs : (program none).Single := Program.single_of_length_le_one (by simp [program])
  exact ⟨hs, by decide +kernel,
    Analyzer.series_eq_alone hs (by decide) Turn.slices marked [.int 3] [] target⟩

end SampleRun

namespace SampleRace

/-- While the first worker is still parsing the header and walks its function, the second one takes
the function for harmless. In a second run the header is kept, and both loops are reported. -/
theorem second_unlike_alone : (program [header ""]).Single ∧
    (Analyzer.series settings (program [header ""]) (overtaken 12) files [targets, targets]).map
        (·[1]?) ≠
      (Analyzer.series settings (program [header ""]) (overtaken 12) files [targets]).map
        (·[0]?) := by
  refine ⟨Program.single_of_length_le_one (by simp [program]), fun h => ?_⟩
  have hreports := congrArg (fun outcome => outcome.toOption.join.map (·.stats.reports)) h
  revert hreports
  unfold Analyzer.series Analyzer.outcomes Analyzer.outcomes Analyzer.outcome Analyzer.run
    Analyzer.projectFiles Analyzer.searchTargets
  simp only [sortUnique_eq_insertionSort]
  decide +kernel

end SampleRace

end NPlusOne
