import NPlusOne.Proofs.AnalysisHome
import NPlusOne.Proofs.AnalysisParts

namespace NPlusOne

theorem CompilerOptions.argumentsFor_ne_parse (o : CompilerOptions) (path : String)
    (e : ParseError) : o.argumentsFor path ≠ .error (.parse e) := by
  have hparts (v : Value) : v.parts ≠ .error (.parse e) := by
    unfold Value.parts
    split <;> simp
  have hstandard : o.standard.shown ≠ .error (.parse e) := by
    unfold Value.shown
    split <;> simp
  have hincludes := hparts o.includePaths
  have harguments := hparts o.arguments
  unfold argumentsFor
  cases hs : o.standard.shown <;> cases hi : o.includePaths.parts <;>
    cases ha : o.arguments.parts <;> simp_all [bind, Except.bind, pure, Except.pure]

def ParseOutcome.isUnit : ParseOutcome → Bool
  | .unit _ => true
  | _ => false

namespace FrontEnd

variable {f : FrontEnd} {path : String} {c c' : UnitCache}

/-- There is a unit for the path: it is kept, or the parser makes one of the file. -/
def yields (f : FrontEnd) (c : UnitCache) (path : String) : Bool :=
  (c.find? path).isSome ||
    f.files.contains path && (f.program.parse path (c.attempts path)).isUnit

namespace Loads

theorem yields_of_ok {loaded : LoadedUnit} (h : f.Loads path c (.ok loaded) c') :
    f.yields c path = true := by
  cases h with
  | kept hfind => simp [yields, hfind]
  | parsed _ hfile _ hunit => simp [yields, hfile, hunit, ParseOutcome.isUnit]

theorem not_yields_of_parse {e : ParseError} (h : f.Loads path c (.error (.parse e)) c') :
    f.yields c path = false := by
  cases h with
  | missing hnone hfile => simp [yields, hnone, hfile]
  | unfit _ _ harguments => exact absurd harguments (f.options.argumentsFor_ne_parse path e)
  | rejected hnone _ _ hout => simp [yields, hnone, hout, ParseOutcome.isUnit]
  | nothing hnone _ _ hout => simp [yields, hnone, hout, ParseOutcome.isUnit]

/-- Loading one file does not decide about another one. -/
theorem yields_other {r : Except Failure LoadedUnit} (h : f.Loads path c r c') {other : String}
    (hne : path ≠ other) : f.yields c' other = f.yields c other := by
  have hcalls (call : ParserCall) (hcall : call.path = path) :
      (c.calls ++ [call]).countP (·.path = other) = c.calls.countP (·.path = other) := by
    simp [List.countP_append, hcall, hne]
  cases h with
  | kept | missing | unfit => rfl
  | rejected | nothing =>
    unfold yields UnitCache.attempts
    rw [hcalls _ rfl]
    rfl
  | @parsed arguments unit =>
    have hattempts : (parsedCache c path arguments unit).attempts other = c.attempts other :=
      hcalls _ rfl
    rw [yields, find?_parsedCache, if_neg hne, hattempts, yields]

end Loads

end FrontEnd

/-- Everything but the units. -/
def AnalysisState.bare (st : AnalysisState) : AnalysisState :=
  { st with search.project.cache := {} }

namespace Analyzer

variable {a : Analyzer} {files : FileTree}

/-- What a run knows before it searches: the targets and the project in normal form, the units of
the targets that parse and the types that issue queries. -/
structure Groundwork where
  targets : List String
  project : List String
  units : List (String × TranslationUnit)
  registry : Registry

/-- The part of a run before its search. -/
def prepare (a : Analyzer) (files : FileTree) (value : Value) : Task AnalysisState Groundwork := do
  reset
  let configured ← a.settings.allSourceFiles files
  let paths ← Task.ofExcept (targetPaths configured value)
  let targets := sortUnique (paths.map files.absolute)
  let project ← Task.ofExcept (projectFiles files configured targets)
  Log.write .info .command
    s!"Analysis started: {targets.length} files ({project.length} project files)"
  let units ← a.parseTargets files targets
  count fun n => { n with files := units.length }
  let others ← a.parseOthers files (project.filter fun path => (units.lookup path).isNone)
  let registry ← a.registry (units.map Prod.snd ++ others)
  return { targets, project, units, registry }

theorem prepare_of_any (a : Analyzer) (files : FileTree) (value : Value) (st : AnalysisState)
    (h : ((a.prepare files value).run st).1.toOption.any (!·.registry.isEmpty) = true) :
    ∃ g mid, (a.prepare files value).run st = (.ok g, mid) ∧ g.registry.isEmpty = false := by
  rcases hg : (a.prepare files value).run st with ⟨e | g, mid⟩
  · simp [hg, Except.toOption] at h
  · exact ⟨g, mid, rfl, by simpa [hg, Except.toOption] using h⟩

/-- A run that finds a type which issues queries is its preparation and its search. -/
theorem run_eq_searchTargets {value : Value} {st mid : AnalysisState} {g : Groundwork}
    (hg : (a.prepare files value).run st = (.ok g, mid)) (hr : g.registry.isEmpty = false) :
    (a.run files value).run st =
      (a.searchTargets files g.registry g.project g.targets g.units).run mid := by
  have hrun : a.run files value = a.prepare files value >>= fun g =>
      if g.registry.isEmpty then do
        Log.write .info .command "No known database library is used; nothing to analyze"
        return []
      else a.searchTargets files g.registry g.project g.targets g.units := by
    simp only [run, prepare, bind_assoc, pure_bind]
  rw [hrun, Task.run_bind_ok hg, hr]
  rfl

section

variable (b : AnalysisState)

theorem bare_write (level : Log.Level) (channel : Log.Channel) (text : String) :
    Task.Keeps (fun st : AnalysisState => st.bare = b) (Log.write level channel text) :=
  .modify fun _ h => h

theorem bare_unitOf (path : String) :
    Task.Keeps (fun st : AnalysisState => st.bare = b) (a.unitOf files path) := by
  intro st h
  rw [run_unitOf]
  exact h

theorem bare_parseOthers (paths : List String) :
    Task.Keeps (fun st : AnalysisState => st.bare = b) (a.parseOthers files paths) :=
  stepwise_parseOthers (Task.Keeps.stepwise _) (bare_write b) (bare_unitOf b) paths

theorem bare_registry (units : List TranslationUnit) :
    Task.Keeps (fun st : AnalysisState => st.bare = b) (a.registry units) :=
  stepwise_registry (Task.Keeps.stepwise _) (bare_write b) units

end

/-- The targets that parse are those for which there is a unit; each of the others is counted as an
error. -/
theorem run_parseTargets {paths : List String} (hn : paths.Nodup)
    (ha : ∀ path ∈ paths, files.absolute path = path) {units : List (String × TranslationUnit)}
    {st st' : AnalysisState} (h : (a.parseTargets files paths).run st = (.ok units, st')) :
    units.map Prod.fst = paths.filter ((a.frontEnd files).yields st.search.project.cache) ∧
      st'.bare = { st.bare with
        stats.errors := st.stats.errors +
          paths.countP (!(a.frontEnd files).yields st.search.project.cache ·) } := by
  induction paths generalizing st units with
  | nil =>
    cases h
    exact ⟨rfl, rfl⟩
  | cons path rest ih =>
    obtain ⟨hpath, hn⟩ := List.nodup_cons.mp hn
    replace ih := @ih hn fun other ho => ha other (List.mem_cons_of_mem path ho)
    unfold parseTargets at h
    obtain ⟨outcome, mid, hunit, h⟩ := Task.run_bind_eq_ok h
    have hloads := FrontEnd.loads_load (a.frontEnd files) path st.search.project.cache
    have hnormal : (a.frontEnd files).files.absolute path = path := ha path List.mem_cons_self
    rw [hnormal] at hloads
    rw [run_unitOf] at hunit
    obtain ⟨hcaught, rfl⟩ := Prod.mk.inj hunit
    -- The files that follow are other ones, so they parse or not as they did before.
    have hlater (other) (ho : other ∈ rest) :=
      hloads.yields_other fun heq : path = other => hpath (heq ▸ ho)
    generalize ((a.frontEnd files).load path false).run st.search.project.cache = loaded
      at hcaught hloads hlater h
    obtain ⟨result, cache⟩ := loaded
    have hfilter : rest.filter ((a.frontEnd files).yields cache) =
        rest.filter ((a.frontEnd files).yields st.search.project.cache) :=
      List.filter_congr fun other ho => hlater other ho
    have hcount : rest.countP (fun other => !(a.frontEnd files).yields cache other) =
        rest.countP fun other => !(a.frontEnd files).yields st.search.project.cache other :=
      List.countP_congr fun other ho => by rw [hlater other ho]
    cases result with
    | ok loaded =>
      cases hcaught
      obtain ⟨others, last, hothers, h⟩ := Task.run_bind_eq_ok h
      cases h
      obtain ⟨hunits, hbare⟩ := ih hothers
      have hyes := hloads.yields_of_ok
      refine ⟨?_, ?_⟩
      · rw [List.filter_cons_of_pos hyes, List.map_cons, hunits, hfilter]
      · rw [hbare, hcount, List.countP_cons_of_neg (by simp [hyes])]
        rfl
    | error e =>
      cases e with
      | parse e =>
        cases hcaught
        obtain ⟨_, mid, hwrite, h⟩ := Task.run_bind_eq_ok h
        obtain ⟨_, mid', hcounted, h⟩ := Task.run_bind_eq_ok h
        cases hwrite
        cases hcounted
        obtain ⟨hunits, hbare⟩ := ih h
        have hno := hloads.not_yields_of_parse
        refine ⟨?_, ?_⟩
        · rw [List.filter_cons_of_neg (by simp [hno])]
          exact hunits.trans hfilter
        · rw [List.countP_cons_of_pos (by simp [hno]), ← hcount]
          refine hbare.trans ?_
          simp only [Nat.add_assoc, Nat.add_comm 1]
          rfl
      | _ => cases hcaught

/-- The given targets in normal form. -/
def givenTargets (a : Analyzer) (files : FileTree) (value : Value) :
    Except Failure (List String) := do
  let sources ← a.configured files
  let paths ← targetPaths sources value
  return paths.map files.absolute

/-- What a preparation leaves: a search that has not begun, the lines as they were, and counts of
the targets that parse and of those that do not. -/
structure Prepared (a : Analyzer) (files : FileTree) (value : Value) (st : AnalysisState)
    (g : Groundwork) (mid : AnalysisState) : Prop where
  targets : ∃ paths, a.givenTargets files value = .ok paths ∧ g.targets = sortUnique paths
  units : g.units.map Prod.fst =
    g.targets.filter ((a.frontEnd files).yields st.search.project.cache)
  search : mid.search = { project.cache := mid.search.project.cache }
  lines : mid.lines = st.lines
  stats : mid.stats = {
    files := g.units.length
    errors := g.targets.countP (!(a.frontEnd files).yields st.search.project.cache ·) }

/-- A preparation that succeeds leaves a state that is prepared for its targets. -/
theorem prepared_of_run {value : Value} {st mid : AnalysisState} {g : Groundwork}
    (h : (a.prepare files value).run st = (.ok g, mid)) : a.Prepared files value st g mid := by
  unfold prepare at h
  rw [Task.run_bind_ok (show reset.run st = (.ok (), _) from rfl)] at h
  obtain ⟨sources, _, hsources, h⟩ := Task.run_bind_eq_ok h
  have hconfigured := (configured_eq _).symm.trans (congrArg Prod.fst hsources)
  obtain ⟨_, _, hsources⟩ := Task.ofExcept_bind_eq_ok hsources
  cases hsources
  obtain ⟨paths, hpaths, h⟩ := Task.ofExcept_bind_eq_ok h
  obtain ⟨project, hproject, h⟩ := Task.ofExcept_bind_eq_ok h
  obtain ⟨_, _, hwrite, h⟩ := Task.run_bind_eq_ok h
  cases hwrite
  obtain ⟨units, afterUnits, hunits, h⟩ := Task.run_bind_eq_ok h
  obtain ⟨_, _, hcount, h⟩ := Task.run_bind_eq_ok h
  cases hcount
  obtain ⟨others, afterOthers, hothers, h⟩ := Task.run_bind_eq_ok h
  obtain ⟨registry, _, hregistry, h⟩ := Task.run_bind_eq_ok h
  cases h
  have habsolute (path) (hp : path ∈ sortUnique (paths.map files.absolute)) :
      files.absolute path = path := by
    obtain ⟨given, _, rfl⟩ := List.mem_map.mp (mem_sortUnique.mp hp)
    exact files.absolute_absolute files given
  obtain ⟨hpaths', hparsed⟩ := run_parseTargets (nodup_sortUnique _) habsolute hunits
  have hlast : mid.bare = { afterUnits.bare with stats.files := units.length } :=
    (bare_registry _ _).of_run hregistry ((bare_parseOthers _ _).of_run hothers rfl)
  rw [hparsed] at hlast
  refine ⟨⟨_, ?_, rfl⟩, hpaths', ?_, congrArg (·.lines) hlast, ?_⟩
  · simp only [givenTargets, hconfigured, bind, Except.bind, hpaths]
    rfl
  · exact congrArg (fun b => { b.search with project.cache := mid.search.project.cache }) hlast
  · refine (congrArg (·.stats) hlast).trans ?_
    exact congrArg (fun n : Nat => ({ files := units.length, errors := n } : Stats))
      (Nat.zero_add _)

end Analyzer

end NPlusOne
