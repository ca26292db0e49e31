import NPlusOne.Proofs.AnalysisParts
import NPlusOne.Proofs.SharedSearch

namespace NPlusOne

/-- The property is lost neither when files are parsed nor when something is written to the log. -/
def WalkState.Stable (program : Program) (inv : WalkState ProjectState → Prop) : Prop :=
  ∀ st st', WalkState.Widens program st st' → inv st → inv st'

theorem WalkState.Relogged.widens {st st' : WalkState ProjectState} (h : st.Relogged st')
    (program : Program) : st.Widens program st' := by
  obtain ⟨hindex, log, hcache⟩ := h.project
  exact .of_cache program h.walked.symm hindex.symm (by rw [hcache])

namespace Analyzer

variable {a : Analyzer} {files : FileTree} {inv : WalkState ProjectState → Prop}

theorem keeps_write {program : Program} (h : WalkState.Stable program inv) (level : Log.Level)
    (channel : Log.Channel) (text : String) :
    Task.Keeps (fun st : AnalysisState => inv st.search) (Log.write level channel text) :=
  .modify fun st hst => h _ _ ((WalkState.Relogged.append _ st.search).widens program) hst

theorem keeps_count (f : Stats → Stats) :
    Task.Keeps (fun st : AnalysisState => inv st.search) (count f) :=
  .modify fun _ hst => hst

theorem keeps_unitOf (h : WalkState.Stable a.program inv) (path : String) :
    Task.Keeps (fun st : AnalysisState => inv st.search) (a.unitOf files path) := by
  have hload : Task.Keeps (fun st : AnalysisState => inv st.search)
      (inCache ((a.frontEnd files).load path false)) := by
    intro st hst
    have hl := FrontEnd.loads_load (a.frontEnd files) path st.search.project.cache
    rw [run_inCache]
    exact h st.search _ ⟨rfl, rfl, hl.grows, fun _ _ => hl.parsed_of_find?⟩ hst
  exact hload.catchParse.bind fun _ => .pure _

theorem keeps_parseTargets (h : WalkState.Stable a.program inv) (paths : List String) :
    Task.Keeps (fun st : AnalysisState => inv st.search) (a.parseTargets files paths) :=
  stepwise_parseTargets (Task.Keeps.stepwise _) (keeps_write h) keeps_count (keeps_unitOf h) paths

theorem keeps_parseOthers (h : WalkState.Stable a.program inv) (paths : List String) :
    Task.Keeps (fun st : AnalysisState => inv st.search) (a.parseOthers files paths) :=
  stepwise_parseOthers (Task.Keeps.stepwise _) (keeps_write h) (keeps_unitOf h) paths

theorem keeps_registry (h : WalkState.Stable a.program inv) (units : List TranslationUnit) :
    Task.Keeps (fun st : AnalysisState => inv st.search) (a.registry units) :=
  stepwise_registry (Task.Keeps.stepwise _) (keeps_write h) units

theorem keeps_sourceLines {program : Program} (h : WalkState.Stable program inv) (path : String) :
    Task.Keeps (fun st : AnalysisState => inv st.search) (sourceLines files path) := by
  unfold sourceLines
  refine .bind .get fun now => ?_
  split
  next => exact .pure _
  next =>
    have hstore (lines : List String) : Task.Keeps (fun st : AnalysisState => inv st.search)
        (modify fun st => { st with lines := (path, lines) :: st.lines }) :=
      .modify fun _ hst => hst
    split
    next lines _ => exact (hstore lines).bind fun _ => .pure _
    next => exact (keeps_write h _ _ _).bind fun _ => (hstore []).bind fun _ => .pure _
    next => exact .throw _

theorem keeps_suppress {program : Program} (h : WalkState.Stable program inv)
    (reports : List Report) :
    Task.Keeps (fun st : AnalysisState => inv st.search) (a.suppress files reports) :=
  stepwise_suppress (Task.Keeps.stepwise _) keeps_count (keeps_sourceLines h) reports

theorem keeps_logStats {program : Program} (h : WalkState.Stable program inv) :
    Task.Keeps (fun st : AnalysisState => inv st.search) logStats := by
  unfold logStats
  refine .bind .get fun _ => .bind (.forIn fun line _ => ?_) fun _ => .pure _
  exact (keeps_write h _ _ _).bind fun _ => .pure _

/-- The unit is the one that is kept for the file. -/
def Parsed (files : FileTree) (path : String) (unit : TranslationUnit)
    (st : WalkState ProjectState) : Prop :=
  st.project.cache.Holds (files.absolute path) unit

theorem stable_parsed (program : Program) (files : FileTree) (path : String)
    (unit : TranslationUnit) : WalkState.Stable program (Parsed files path unit) :=
  fun _ _ hw h => h.grown hw.grows

theorem unitOf_parsed (path : String) (pre : AnalysisState → Prop) :
    Task.Ensures pre (a.unitOf files path) fun outcome st =>
      ∀ unit, outcome = .ok unit → Parsed files path unit st.search := by
  have hload : Task.Ensures pre (inCache ((a.frontEnd files).load path false))
      fun loaded st => Parsed files path loaded.unit st.search :=
    ((a.frontEnd files).load_holds path).within.within.within
  refine hload.catchParse.bind fun outcome => .pure fun st hst unit hunit => ?_
  cases outcome with
  | error e => cases hunit
  | ok loaded =>
    cases hunit
    exact hst loaded rfl

theorem parseTargets_parsed (paths : List String) (pre : AnalysisState → Prop) :
    Task.Ensures pre (a.parseTargets files paths) fun units st => ∀ path unit,
      (path, unit) ∈ units → path ∈ paths ∧ Parsed files path unit st.search := by
  induction paths generalizing pre with
  | nil => exact .pure fun _ _ => by simp
  | cons path rest ih =>
    unfold parseTargets
    refine (unitOf_parsed path pre).bind fun outcome => ?_
    cases outcome with
    | error e =>
      refine .after fun _ => .after fun _ => (ih _).mono fun units st hst other unit hmem => ?_
      exact (hst other unit hmem).imp_left (List.mem_cons_of_mem path)
    | ok unit =>
      have hrest := (keeps_parseTargets (stable_parsed a.program files path unit)
        rest).ensures (ih _)
      refine .given (fun st hst => hst unit rfl) (hrest.bind fun units => .pure ?_)
      intro st hst other unit' hmem
      rcases List.mem_cons.mp hmem with heq | hmem
      · cases heq
        exact ⟨List.mem_cons_self, hst.1⟩
      · exact (hst.2 other unit' hmem).imp_left (List.mem_cons_of_mem path)

/-- The configured source files. -/
def configured (a : Analyzer) (files : FileTree) : Except Failure (List String) :=
  ((a.settings.allSourceFiles files : Task Log (List String)).run #[]).1

/-- The resolver of a run whose project files, targets and configured roots are known. -/
def resolverOf (a : Analyzer) (files : FileTree) (project targets roots : List String) : Resolver :=
  ⟨a.frontEnd files, .make files project (some (sortUnique (roots ++ targets.map Path.directory)))⟩

/-- The resolver of a run, where it comes to a search. -/
def resolver? (a : Analyzer) (files : FileTree) (targets : Value) : Except Failure Resolver := do
  let configured ← a.configured files
  let paths ← targetPaths configured targets
  let targets := sortUnique (paths.map files.absolute)
  let project ← projectFiles files configured targets
  let roots ← a.settings.projectRoots files
  return a.resolverOf files project targets roots

theorem run_told {σ α : Type} [HasLog σ] (found : Except Failure α) (level : Log.Level)
    (channel : Log.Channel) (text : α → String) (st : σ) :
    ((Task.ofExcept found >>= fun x => Log.write level channel (text x) >>= fun _ => pure x :
      Task σ α).run st).1 = found := by
  cases found <;> rfl

/-- Which source files are configured does not depend on the state. -/
theorem configured_eq (st : AnalysisState) :
    ((a.settings.allSourceFiles files).run st).1 = a.configured files :=
  (run_told _ _ _ _ st).trans (run_told _ _ _ _ (#[] : Log)).symm

theorem absolute_mem_projectFiles {sources targets project : List String} {path : String}
    (h : projectFiles files sources targets = .ok project) (hp : path ∈ targets) :
    files.absolute path ∈ project := by
  obtain ⟨known, rfl⟩ : ∃ known, project = sortUnique ((known ++ targets).map files.absolute) := by
    unfold projectFiles at h
    split at h
    next =>
      dsimp only at h
      cases hd : (sortUnique (targets.map Path.directory)).mapM files.sourceFiles with
      | error e =>
        rw [hd] at h
        cases h
      | ok found =>
        rw [hd] at h
        cases h
        exact ⟨_, rfl⟩
    next =>
      cases h
      exact ⟨_, rfl⟩
  exact mem_sortUnique.mpr (List.mem_map_of_mem (List.mem_append_right known hp))

theorem inProject_resolverOf {project : List String} {path : String}
    (h : files.absolute path ∈ project) (targets roots : List String) :
    (a.resolverOf files project targets roots).inProject path = true := by
  have hmem : files.absolute path ∈ project.map files.absolute := by
    rw [← files.absolute_absolute files path]
    exact List.mem_map_of_mem h
  simp [resolverOf, Resolver.inProject, Project.holds, Project.make, frontEnd, hmem]

theorem stable_advances (program : Program) (r : Resolver) (w : WalkState ProjectState) :
    WalkState.Stable program (r.Advances w) :=
  fun _ _ hw h => h.widened hw

/-- With one worker the units of a search stay, and only bodies at home are walked. -/
theorem keeps_analyzeTargets {r : Resolver} {s : LoopSearch ProjectState}
    (hj : moreWorkers a.settings.jobs 1 ≠ .ok true) (hr : s.resolve = r.resolve)
    {w : WalkState ProjectState} {units : List (String × TranslationUnit)}
    (hu : ∀ path unit, (path, unit) ∈ units → Path.Normal path ∧ r.Houses w.project path unit) :
    Task.Keeps (fun st : AnalysisState => r.Advances w st.search) (a.analyzeTargets s units) := by
  have hs := stable_advances {} r w
  refine stepwise_analyzeTargets (Task.Keeps.stepwise _) (fun _ => .modify fun _ h => h) ?_
    fun hmore => absurd hmore hj
  intro path unit hmem
  obtain ⟨hn, hh⟩ := hu path unit hmem
  refine stepwise_analyzeTarget (Task.Keeps.stepwise _) (keeps_write hs) keeps_count
    (fun loops => .modify fun st h => ?_) fun loops hl => ?_
  · exact hs _ _ ((st.advances path loops).1.widens {}) h
  · refine .attempt (.within fun st h => ?_)
    exact stepwise_checkLoops (Task.Keeps.stepwise _)
      (fun loop hm => LoopSearch.keeps_checkLoop hr (hh.loop hn hl hm)) st.search h

section

variable {r : Resolver} {known : String → TranslationUnit → Prop} {s : LoopSearch ProjectState}

theorem stable_orderly (hf : r.frontEnd.Known known) :
    WalkState.Stable r.frontEnd.program (LoopSearch.Orderly r known) := by
  intro st st' hw h
  refine ⟨⟨fun path loaded hfind => ?_, fun index hi => ?_⟩,
    fun c hc => h.walked c (hw.walked ▸ hc)⟩
  · rcases hw.parsed path loaded hfind with hold | ⟨earlier, hnew⟩
    · exact h.project.units path loaded hold
    · exact hf path earlier loaded.unit hnew
  · exact h.project.indexed index (hw.index ▸ hi)

/-- However many workers there are, only bodies are walked that lie in the project and belong to a
unit of their file. -/
theorem orderly_analyzeTargets (hf : r.frontEnd.Known known) (hr : s.resolve = r.resolve)
    {units : List (String × TranslationUnit)}
    (hu : ∀ path unit, (path, unit) ∈ units → Path.Normal path ∧ r.inProject path = true ∧
      known (r.frontEnd.files.absolute path) unit) :
    Task.Keeps (fun st : AnalysisState => LoopSearch.Orderly r known st.search)
      (a.analyzeTargets s units) := by
  have hs := stable_orderly hf
  have hmodify (f : AnalysisState → AnalysisState)
      (hw : ∀ st, WalkState.Widens r.frontEnd.program st.search (f st).search) :
      Task.Shared (fun st : AnalysisState => LoopSearch.Orderly r known st.search)
        (Task.Gives fun _ => True) (modify f) :=
    .modify fun st h => hs _ _ (hw st) h
  have htarget (path unit) (hmem : (path, unit) ∈ units) :
      Task.Shared (fun st : AnalysisState => LoopSearch.Orderly r known st.search)
        (Task.Gives fun _ => True) (analyzeTarget s path unit) := by
    obtain ⟨hn, hin, hunit⟩ := hu path unit hmem
    refine stepwise_analyzeTarget (Task.Shared.stepwise _) (fun _ _ _ => hmodify _ fun st => ?_)
      (fun _ => hmodify _ fun st => ?_) (fun loops => hmodify _ fun st => ?_) fun loops hl => ?_
    · exact (WalkState.Relogged.append _ st.search).widens _
    · exact (WalkState.Relogged.refl st.search).widens _
    · exact (st.advances path loops).1.widens _
    · refine .attempt (.within (fun _ h => h) (fun _ _ _ h => h)
        (stepwise_checkLoops (Task.Shared.stepwise _) fun loop hm => ?_))
      obtain ⟨hfile, hhas⟩ := TranslationUnit.has_loops hl hm
      exact LoopSearch.shared_checkLoop hf hr
        ⟨path, hfile.trans (congrArg some hn), ⟨hin, hunit⟩, hhas⟩
  refine stepwise_analyzeTargets (Task.Keeps.stepwise _) (fun _ => .modify fun _ h => h)
    (fun path unit hmem => (htarget path unit hmem).keeps) fun _ => .pooled fun job hjob => ?_
  obtain ⟨⟨path, unit⟩, hmem, rfl⟩ := List.mem_map.mp hjob
  exact htarget path unit hmem

end

theorem keeps_searchTargets {program : Program} (hs : WalkState.Stable program inv)
    (registry : Registry) {project targets roots : List String}
    {units : List (String × TranslationUnit)}
    (hroots : a.settings.projectRoots files = .ok roots)
    (h : ∀ s : LoopSearch ProjectState,
      s.resolve = (a.resolverOf files project targets roots).resolve →
      Task.Keeps (fun st : AnalysisState => inv st.search) (a.analyzeTargets s units)) :
    Task.Keeps (fun st : AnalysisState => inv st.search)
      (a.searchTargets files registry project targets units) := by
  unfold searchTargets
  rw [hroots, Task.ofExcept_ok_bind]
  have htell : Task.Keeps (fun st : AnalysisState => inv st.search) tellProgress :=
    .bind .get fun _ => keeps_write hs _ _ _
  refine (h _ rfl).bind fun _ => htell.bind fun _ => ?_
  refine .bind .get fun _ => (keeps_suppress hs _).bind fun kept => (keeps_count _).bind fun _ => ?_
  exact (keeps_logStats hs).bind fun _ => .pure _

/-- Nothing is walked yet, and all units are known, those of the given targets among them. -/
structure Ready (files : FileTree) (known : String → TranslationUnit → Prop) (targets : List String)
    (units : List (String × TranslationUnit)) (st : WalkState ProjectState) : Prop where
  walked : st.walked = []
  index : st.project.index = none
  known : st.project.cache.Known known
  parsed : ∀ path unit, (path, unit) ∈ units → path ∈ targets ∧ Parsed files path unit st

theorem stable_ready {known : String → TranslationUnit → Prop}
    (hf : (a.frontEnd files).Known known) (targets : List String)
    (units : List (String × TranslationUnit)) :
    WalkState.Stable a.program (Ready files known targets units) := by
  intro st st' hw h
  refine ⟨hw.walked.trans h.walked, hw.index.trans h.index, fun path loaded hfind => ?_,
    fun path unit hm => (h.parsed path unit hm).imp_right (stable_parsed _ files path unit _ _ hw)⟩
  rcases hw.parsed path loaded hfind with hold | ⟨earlier, hnew⟩
  · exact h.known path loaded hold
  · exact hf path earlier loaded.unit hnew

theorem keeps_allSourceFiles {program : Program} (h : WalkState.Stable program inv) :
    Task.Keeps (fun st : AnalysisState => inv st.search) (a.settings.allSourceFiles files) :=
  .bind (.ofExcept _) fun _ => (keeps_write h _ _ _).bind fun _ => .pure _

theorem resolver?_eq {value : Value} {sources paths project : List String}
    (hs : a.configured files = .ok sources) (hp : targetPaths sources value = .ok paths)
    (hproject : projectFiles files sources (sortUnique (paths.map files.absolute)) = .ok project) :
    a.resolver? files value = (a.settings.projectRoots files).map
      (a.resolverOf files project (sortUnique (paths.map files.absolute))) := by
  simp only [resolver?, bind, Except.bind, hs, hp, hproject]
  cases a.settings.projectRoots files <;> rfl

theorem targets_owned {sources paths project : List String}
    (h : projectFiles files sources (sortUnique (paths.map files.absolute)) = .ok project)
    {path : String} (hp : path ∈ sortUnique (paths.map files.absolute)) :
    Path.Normal path ∧ files.absolute path ∈ project := by
  refine ⟨?_, absolute_mem_projectFiles h hp⟩
  obtain ⟨given, _, rfl⟩ := List.mem_map.mp (mem_sortUnique.mp hp)
  exact files.normal_absolute given

/-- Until its search begins a run walks nothing, so what a run leads to is what its search leads to
from a state that is ready. -/
theorem run_leads {known : String → TranslationUnit → Prop} (hf : (a.frontEnd files).Known known)
    {post : WalkState ProjectState → Prop} (hpost : ∀ st, st.walked = [] → post st) {value : Value}
    (hsearch : ∀ registry project targets units roots, a.resolver? files value =
        .ok (a.resolverOf files project targets roots) →
      a.settings.projectRoots files = .ok roots →
      (∀ path ∈ targets, Path.Normal path ∧ files.absolute path ∈ project) →
      Task.Leads (fun st => Ready files known targets units st.search)
        (a.searchTargets files registry project targets units) fun st => post st.search)
    {st : AnalysisState} (hst : st.search.project.cache.Known known) :
    post ((a.run files value).run st).2.search := by
  have hready (targets units) (st : AnalysisState)
      (h : Ready files known targets units st.search) : post st.search := hpost _ h.walked
  have hs := stable_ready hf [] []
  have hconfigured : Task.Ensures (fun st : AnalysisState => Ready files known [] [] st.search)
      (a.settings.allSourceFiles files) fun found _ => a.configured files = .ok found :=
    fun st _ found hfound => (configured_eq st).symm.trans hfound
  unfold run
  rw [Task.run_bind_ok (show reset.run st = (.ok (), _) from rfl)]
  refine Task.Leads.bind (hready [] []) (keeps_allSourceFiles hs) hconfigured
    (fun sources st h => ?_) _ ⟨rfl, rfl, hst, by simp⟩
  obtain ⟨hst, hsources⟩ := h
  cases hpaths : targetPaths sources value with
  | error e => exact hready _ _ st hst
  | ok paths =>
    rw [Task.ofExcept_ok_bind]
    dsimp only
    cases hproject : projectFiles files sources (sortUnique (paths.map files.absolute)) with
    | error e => exact hready _ _ st hst
    | ok project =>
      rw [Task.ofExcept_ok_bind]
      refine Task.Leads.after (hready [] []) (keeps_write hs _ _ _) (fun _ => ?_) st hst
      refine Task.Leads.bind (hready [] []) (keeps_parseTargets hs _) (parseTargets_parsed _ _)
        fun units st h => ?_
      obtain ⟨hst, hunits⟩ := h
      have hs := stable_ready hf (sortUnique (paths.map files.absolute)) units
      refine Task.Leads.after (hready _ units) (keeps_count _) (fun _ => ?_) st
        ⟨hst.walked, hst.index, hst.known, hunits⟩
      refine .after (hready _ units) (keeps_parseOthers hs _) fun others => ?_
      refine .after (hready _ units) (keeps_registry hs _) fun registry => ?_
      split
      next =>
        intro st hst
        exact hready _ units _ (((keeps_write hs _ _ _).bind fun _ => .pure _) st hst)
      next =>
        have hresolver := resolver?_eq hsources hpaths hproject
        cases hroots : a.settings.projectRoots files with
        | error e =>
          intro st hst
          unfold searchTargets
          rw [hroots]
          exact hready _ units st hst
        | ok roots =>
          rw [hroots] at hresolver
          exact hsearch registry project _ units roots hresolver hroots fun path hp =>
            targets_owned hproject hp

/-- Every body that was walked is at home for the resolver. -/
def WalksHome (resolver : Except Failure Resolver) (st : WalkState ProjectState) : Prop :=
  ∀ c ∈ st.walked, ∃ r, resolver = .ok r ∧ r.AtHome st.project c

/-- With one worker every body that an analysis walks is at home, however the analysis ends. -/
theorem run_walksHome (a : Analyzer) (files : FileTree) (value : Value) (st : AnalysisState)
    (hj : moreWorkers a.settings.jobs 1 ≠ .ok true) :
    WalksHome (a.resolver? files value) ((a.run files value).run st).2.search := by
  have hf : (a.frontEnd files).Known fun _ _ => True := fun _ _ _ _ => trivial
  refine run_leads hf (fun st hnone c hc => by simp [hnone] at hc) ?_ fun _ _ _ => trivial
  intro registry project targets units roots hresolver hroots ht st hst
  have hu (path unit) (hm : (path, unit) ∈ units) : Path.Normal path ∧
      (a.resolverOf files project targets roots).Houses st.search.project path unit := by
    obtain ⟨hpath, hparsed⟩ := hst.parsed path unit hm
    obtain ⟨hn, hmem⟩ := ht path hpath
    exact ⟨hn, inProject_resolverOf hmem targets roots, hparsed⟩
  have hindexed : (a.resolverOf files project targets roots).Indexed st.search.project := by
    simp [Resolver.Indexed, hst.index]
  have hfinal := keeps_searchTargets (stable_advances {} _ st.search) registry hroots
    (fun s hr => keeps_analyzeTargets hj hr hu) st (.refl hindexed)
  intro c hc
  refine ⟨_, hresolver, (hfinal.walked c hc).resolve_left ?_⟩
  simp [hst.walked]

/-- The unit was kept for the path when the run began, or the parser makes it of the file. -/
def unitsFor (a : Analyzer) (st : AnalysisState) (path : String) (unit : TranslationUnit) : Prop :=
  st.search.project.cache.Holds path unit ∨
    ∃ earlier, a.program.parse path earlier = .unit unit

/-- Every body that was walked lies in a file of the project and belongs to a unit of the file. -/
def WalksInside (resolver : Except Failure Resolver) (known : String → TranslationUnit → Prop)
    (st : WalkState ProjectState) : Prop :=
  ∀ c ∈ st.walked, ∃ r, resolver = .ok r ∧ r.Admits known c

/-- However many workers there are and whatever turns they take, an analysis walks nothing but
bodies of the project. -/
theorem run_walksInside (a : Analyzer) (files : FileTree) (value : Value) (st : AnalysisState) :
    WalksInside (a.resolver? files value) (a.unitsFor st)
      ((a.run files value).run st).2.search := by
  have hf : (a.frontEnd files).Known (a.unitsFor st) := fun _ earlier _ h => .inr ⟨earlier, h⟩
  refine run_leads hf (fun st hnone c hc => by simp [hnone] at hc) ?_
    fun _ loaded hfind => .inl ⟨loaded, hfind, rfl⟩
  intro registry project targets units roots hresolver hroots ht now hnow
  have hu (path unit) (hm : (path, unit) ∈ units) : Path.Normal path ∧
      (a.resolverOf files project targets roots).inProject path = true ∧
      a.unitsFor st (files.absolute path) unit := by
    obtain ⟨hpath, loaded, hfind, rfl⟩ := hnow.parsed path unit hm
    obtain ⟨hn, hmem⟩ := ht path hpath
    exact ⟨hn, inProject_resolverOf hmem targets roots, hnow.known _ loaded hfind⟩
  have hindexed : (a.resolverOf files project targets roots).Indexed now.search.project := by
    simp [Resolver.Indexed, hnow.index]
  have hfinal := keeps_searchTargets (stable_orderly hf) registry hroots
    (fun s hr => orderly_analyzeTargets hf hr hu) now
    ⟨⟨hnow.known, hindexed⟩, by simp [hnow.walked]⟩
  exact fun c hc => ⟨_, hresolver, hfinal.walked c hc⟩

/-- The state of the search when a run is over, whether it fails or not. -/
def searched (a : Analyzer) (files : FileTree) (targets : Value) (st : AnalysisState) :
    WalkState ProjectState :=
  ((a.run files targets).run st).2.search

/-- A run walks only bodies in files of the project, each in a unit of its file. With one worker
that is the unit which is kept for the file, so functions with one id never come from two units. -/
theorem run_walks_kept_units (a : Analyzer) (files : FileTree) (targets : Value)
    (st : AnalysisState) :
    WalksInside (a.resolver? files targets) (a.unitsFor st) (a.searched files targets st) ∧
    (moreWorkers a.settings.jobs 1 ≠ .ok true →
      WalksHome (a.resolver? files targets) (a.searched files targets st) ∧
      ∀ c ∈ (a.searched files targets st).walked, ∀ d ∈ (a.searched files targets st).walked,
        ∀ id, DeclarationId.of c.node = .ok id → DeclarationId.of d.node = .ok id →
          c.unit = d.unit) := by
  refine ⟨run_walksInside a files targets st, fun hj => ?_⟩
  have hwalks := run_walksHome a files targets st hj
  refine ⟨hwalks, ?_⟩
  intro c hc d hd id hid hid'
  obtain ⟨r, hr, hc⟩ := hwalks c hc
  obtain ⟨r', hr', hd⟩ := hwalks d hd
  cases hr.symm.trans hr'
  exact hc.unit_eq hd ((DeclarationId.file_of hid).trans (DeclarationId.file_of hid').symm)

end Analyzer

namespace SampleRun

/-- The three loops that are walked belong to the unit of their file. -/
theorem walks_loops_home :
    ((analyzer none).searched marked target {}).walked.length = 3 ∧
    Analyzer.WalksHome ((analyzer none).resolver? marked target)
      ((analyzer none).searched marked target {}) := by
  have hj : Analyzer.moreWorkers (analyzer none).settings.jobs 1 ≠ .ok true := by decide
  exact ⟨by decide +kernel,
    ((Analyzer.run_walks_kept_units (analyzer none) marked target {}).2 hj).1⟩

end SampleRun

namespace SampleRace

/-- Two workers that miss the header at the same time both parse it. One walks its function in the
unit that it got, which is not the one that is kept. -/
theorem walks_replaced_unit :
    let a := analyzer [header "first", header "second"] (overtaken 5)
    ¬ Analyzer.WalksHome (a.resolver? files targets) (a.searched files targets {}) := by
  intro a hwalks
  have hstale : (a.searched files targets {}).walked.any (fun c =>
      c.node.file? = some "/p/u.h" &&
        ((a.searched files targets {}).project.cache.find? "/p/u.h").any
          (·.unit.diagnostics ≠ c.unit.diagnostics)) = true := by
    unfold a Analyzer.searched Analyzer.run Analyzer.projectFiles Analyzer.searchTargets
    simp only [sortUnique_eq_insertionSort]
    decide +kernel
  have hplace : (a.resolver? files targets).map (·.frontEnd.files.absolute "/p/u.h") =
      .ok "/p/u.h" := by
    unfold a Analyzer.resolver? Analyzer.projectFiles Analyzer.resolverOf
    simp only [sortUnique_eq_insertionSort]
    decide +kernel
  obtain ⟨c, hc, hstale⟩ := List.any_eq_true.1 hstale
  obtain ⟨r, hr, file, hfile, ⟨_, loaded, hfind, hunit⟩, _⟩ := hwalks c hc
  rw [Bool.and_eq_true, decide_eq_true_eq, hfile, Option.some_inj] at hstale
  obtain ⟨rfl, hstale⟩ := hstale
  have hplace : r.frontEnd.files.absolute "/p/u.h" = "/p/u.h" := by
    rw [hr] at hplace
    exact Except.ok.inj hplace
  rw [hplace] at hfind
  rw [hfind, Option.any_some, hunit] at hstale
  simp at hstale

end SampleRace

end NPlusOne
