import NPlusOne.Proofs.ResolverSession

namespace NPlusOne

namespace Resolver

variable {r : Resolver} {p : ProjectState} {index : DefinitionIndex} {path : String}
  {u : TranslationUnit}

theorem loadUnit_kept (h : p.cache.Holds (r.frontEnd.files.absolute path) u) :
    (r.loadUnit path).run p = (.ok u, p) := by
  obtain ⟨loaded, hfind, rfl⟩ := h
  unfold loadUnit
  rw [Task.run_bind, Task.run_within, FrontEnd.run_load_kept hfind]
  rfl

/-- Making the index leaves the units of the source files where they will be looked for. -/
theorem holds_indexFiles {paths : List String} {index index' : DefinitionIndex} {k : Nat}
    (h : ((r.indexFiles paths index).run p).1 = .ok index') (hk : paths[k]? = some path)
    (hu : (r.unitsOf p paths)[k]? = some (some u)) :
    ((r.indexFiles paths index).run p).2.cache.Holds (r.frontEnd.files.absolute path) u := by
  induction paths generalizing p index k with
  | nil => simp at hk
  | cons first rest ih =>
    obtain ⟨next, these, hlog, hrun, _⟩ := indexFiles_cons h
    rw [hrun] at h ⊢
    cases k with
    | zero =>
      cases hk
      have hres : ((r.loadUnit path).run p).1 = .ok u := by
        cases hload : ((r.loadUnit path).run p).1 with
        | error e => simp [unitsOf, hload, Except.toOption] at hu
        | ok unit => simpa [unitsOf, hload, Except.toOption] using hu
      obtain ⟨loaded, hfind, hunit⟩ := loadUnit_holds path p trivial u hres
      obtain ⟨_, log, hcache⟩ := hlog
      have hnext : next.cache.Holds (r.frontEnd.files.absolute path) u :=
        ⟨loaded, by rw [hcache]; exact hfind, hunit⟩
      exact hnext.grown ((r.preserves_grows next.cache).indexFiles rest _ next (.refl _))
    | succ k =>
      rw [unitsOf, unitsOf_relogged hlog] at hu
      exact ih h hk hu

theorem holds_definitionIndex {k : Nat} (hnone : p.index = none)
    (h : (r.definitionIndex.run p).1 = .ok index) (hk : r.project.sources[k]? = some path)
    (hu : (r.unitsOf p r.project.sources)[k]? = some (some u)) :
    (r.definitionIndex.run p).2.cache.Holds (r.frontEnd.files.absolute path) u := by
  have hmade := indexFiles_of_definitionIndex hnone h
  obtain ⟨loaded, hfind, hunit⟩ := holds_indexFiles hmade hk hu
  have hunits := (run_definitionIndex_made hnone hmade).2.2
  refine ⟨loaded, ?_, hunit⟩
  rw [UnitCache.find?] at hfind ⊢
  rw [hunits, hfind]

/-- A function is resolved to all definitions of the file that the index names, if the unit of the
file is kept. -/
theorem resolve_of_holds {callee : Cursor} {found : List Node} (hc : callee.Foreign)
    (h : (r.definitionIndex.run p).1 = .ok index)
    (hpath : index.lookup callee.node.info.usr = some path)
    (hu : (r.definitionIndex.run p).2.cache.Holds (r.frontEnd.files.absolute path) u)
    (hfound : u.functionDefinitions path = .ok found) :
    ((r.resolve callee).run p).1 = .ok (some (found.map (⟨u, ·⟩))) := by
  have hlocate : (r.locate callee).run p = (.ok (some path), (r.definitionIndex.run p).2) := by
    rw [run_locate_foreign hc, h, ← hpath]
    rfl
  have hcatch : (catchParse (r.loadUnit path)).run (r.definitionIndex.run p).2 =
      (.ok (.ok u), (r.definitionIndex.run p).2) := by
    rw [Task.run_catchParse, loadUnit_kept hu]
    rfl
  unfold resolve
  rw [Task.run_bind_ok hlocate]
  dsimp only
  rw [Task.run_bind_ok hcatch]
  dsimp only
  rw [Task.run_bind_pure, TranslationUnit.listFunctions_result, hfound]
  rfl

end Resolver

namespace ResolverSession

variable {s : ResolverSession} {request : ResolverRequest} {requests : List ResolverRequest}
  {i n : Nat}

theorem project_upTo (s : ResolverSession) (requests : List ResolverRequest) (n : Nat) :
    (s.upTo requests n).resolver.project = s.resolver.project := by
  induction n with
  | zero => rfl
  | succ n ih =>
    cases hr : requests[n]? with
    | none => rw [upTo_succ_of_none hr, ih]
    | some request =>
      rw [upTo_succ hr, ← ih]
      cases request <;> rfl

/-- Resolvers take no unit away. -/
theorem grows_next (h : ∀ cache, request = .others cache → s.state.cache.Grows cache) :
    s.state.cache.Grows (s.next request).state.cache := by
  have hgrows := s.resolver.preserves_grows s.state.cache
  cases request with
  | locate callee => exact hgrows.locate callee s.state (.refl _)
  | resolve callee => exact hgrows.resolve callee s.state (.refl _)
  | inProject path => exact .refl _
  | change frontEnd => exact .refl _
  | others cache => exact h cache rfl

theorem grows_upTo {m : Nat} (hle : n ≤ m)
    (h : ∀ n cache, requests[n]? = some (.others cache) →
      (s.upTo requests n).state.cache.Grows cache) :
    (s.upTo requests n).state.cache.Grows (s.upTo requests m).state.cache := by
  induction hle with
  | refl => exact .refl _
  | @step m _ ih =>
    refine ih.trans ?_
    cases hr : requests[m]? with
    | none =>
      rw [upTo_succ_of_none hr]
      exact .refl _
    | some request =>
      rw [upTo_succ hr]
      refine grows_next ?_
      rintro cache rfl
      exact h m cache hr

/-- A request that needs the index starts with it. -/
theorem grows_next_of_consults (h : request.Consults) :
    (s.resolver.definitionIndex.run s.state).2.cache.Grows (s.next request).state.cache := by
  cases request with
  | locate callee =>
    simp only [next, Resolver.run_locate_foreign h]
    exact .refl _
  | resolve callee =>
    have hgrows := s.resolver.preserves_grows (s.resolver.definitionIndex.run s.state).2.cache
    refine Resolver.resolve_keeps _ hgrows.loadUnit (fun _ _ hp => hp) ?_
    rw [Resolver.run_locate_foreign h]
    exact .refl _
  | _ => cases h

def resolves (s : ResolverSession) (callee : Cursor) : Except Failure (Option (List Cursor)) :=
  ((s.resolver.resolve callee).run s.state).1

/-- Where the units of the project are not exchanged, the unit that a source file had when the index
was built is still there when a later request has asked for the index. -/
theorem holds_of_buildsIndex {files : FileTree} {sources : List String}
    {roots : Option (List String)} (hproject : s.resolver.project = .make files sources roots)
    (hkept : ∀ n cache, requests[n]? = some (.others cache) →
      (s.upTo requests n).state.cache.Grows cache)
    (hi : s.BuildsIndex requests i) (hle : i ≤ n) {k : Nat} {file : String} {u : TranslationUnit}
    (hk : s.resolver.project.sources[k]? = some file)
    (hu : (s.upTo requests i).units[k]? = some (some u)) :
    ((s.upTo requests n).resolver.definitionIndex.run (s.upTo requests n).state).2.cache.Holds
      ((s.upTo requests n).resolver.frontEnd.files.absolute file) u := by
  -- Source files are absolute, so it does not matter from which directory they are seen.
  have habsolute (tree : FileTree) : tree.absolute file = file := by
    have hmem : file ∈ sources.map files.absolute := by
      rw [hproject] at hk
      exact List.mem_of_getElem? hk
    obtain ⟨path, _, rfl⟩ := List.mem_map.mp hmem
    exact FileTree.absolute_absolute files tree path
  obtain ⟨request, index, hr, hc, hnone, hindex⟩ := hi
  have hbuilt := Resolver.holds_definitionIndex hnone hindex
    (by rw [project_upTo]; exact hk) hu
  rw [habsolute] at hbuilt ⊢
  rcases Nat.lt_or_eq_of_le hle with hlt | rfl
  · have hnext : (s.upTo requests (i + 1)).state.cache.Holds file u := by
      rw [upTo_succ hr]
      exact hbuilt.grown (grows_next_of_consults hc)
    have hnow := hnext.grown (grows_upTo hlt hkept)
    exact hnow.grown (((s.upTo requests n).resolver.preserves_grows _).definitionIndex _ (.refl _))
  · exact hbuilt

/-- Index and extraction agree: a definition that the index has found in the own unit of a source
file, with all its scopes in that file, is among those to which the functions resolve that the index
leads to the file. -/
theorem resolve_lists_indexed {files : FileTree} {sources : List String}
    {roots : Option (List String)} (hproject : s.resolver.project = .make files sources roots)
    (hs : s.state.index = none)
    (hkept : ∀ n cache, requests[n]? = some (.others cache) →
      (s.upTo requests n).state.cache.Grows cache)
    (hi : s.BuildsIndex requests i) {k : Nat} {file : String} {u : TranslationUnit}
    (hk : s.resolver.project.sources[k]? = some file)
    (hu : (s.upTo requests i).units[k]? = some (some u)) (hw : u.root.Whole) {site : List Nat}
    {d : Node} (hd : u.ExposesIn file site d) {callee : Cursor} (hc : callee.Foreign)
    (hn : requests[n]? = some (.resolve callee)) {index : DefinitionIndex}
    (hindex : (s.upTo requests n).index? = .ok index)
    (hfile : index.lookup callee.node.info.usr = some file) :
    ∃ ds, (s.upTo requests n).resolves callee = .ok (some ds) ∧ ⟨u, d⟩ ∈ ds := by
  obtain ⟨j, hle, hj, _⟩ := exists_buildsIndex hs hn hc hindex
  cases hj.unique hi
  have hholds := holds_of_buildsIndex hproject hkept hi hle hk hu
  have hnormal : Path.normalize file = file := by
    obtain ⟨_, _, _, _, _, _, _, _, _, hdfile⟩ := hd
    exact Node.normal_file? hdfile
  rw [← hnormal] at hd
  obtain ⟨found, hfound, hmem⟩ := TranslationUnit.mem_functionDefinitions hw hd
  exact ⟨_, Resolver.resolve_of_holds hc hindex hfile hholds hfound, List.mem_map_of_mem hmem⟩

end ResolverSession

namespace SampleIndex

/-- Another unit is kept in between. -/
def questions : List ResolverRequest :=
  [.locate declared, .others { units := session.state.cache.units ++ [("/c.cpp", ⟨3, copy⟩)] },
    .resolve declared]

theorem grows_questions {n : Nat} {cache : UnitCache} (h : questions[n]? = some (.others cache)) :
    (session.upTo questions n).state.cache.Grows cache := by
  have hlt : n < 3 := (List.getElem?_eq_some_iff.mp h).1
  have hcases : n = 0 ∨ n = 1 ∨ n = 2 := by omega
  rcases hcases with rfl | rfl | rfl
  · cases h
  · cases h
    have hunits : (session.upTo questions 1).state.cache.units = session.state.cache.units := rfl
    intro path loaded hfind
    rw [UnitCache.find?, hunits] at hfind
    obtain ⟨entry, hentry, rfl⟩ := Option.map_eq_some_iff.mp hfind
    simp [UnitCache.find?, List.find?_append, hentry]
  · cases h

theorem whole_unit : unit.root.Whole := by
  have hroot : unit.root.children = .ok [scope] := rfl
  have hscope : scope.children = .ok [helper] := rfl
  have hhelper : helper.children = .ok [] := rfl
  intro m hm
  simp only [Node.contains_iff hroot, Node.contains_iff hscope, Node.contains_iff hhelper,
    List.mem_singleton, exists_eq_left, List.not_mem_nil, false_and, exists_false, or_false] at hm
  rcases hm with rfl | rfl | rfl <;> rfl

theorem exposesIn_unit : unit.ExposesIn "/a.cpp" [0, 0] helper := by
  refine ⟨0, [0], scope, rfl, rfl, [scope], .down rfl (.here helper), ?_, ⟨rfl, rfl⟩, rfl⟩
  intro m hm
  cases List.mem_singleton.mp hm
  exact ⟨⟨rfl, rfl, rfl⟩, rfl⟩

theorem helper_resolved :
    (session.upTo questions 2).resolves declared = .ok (some [⟨unit, helper⟩]) ∧
      ∃ ds, (session.upTo questions 2).resolves declared = .ok (some ds) ∧ ⟨unit, helper⟩ ∈ ds := by
  have hbuilds : session.BuildsIndex questions 0 := ⟨_, _, rfl, foreign, rfl, rfl⟩
  have hfirst : (session.upTo questions 0).units[0]? = some (some unit) := rfl
  exact ⟨rfl, ResolverSession.resolve_lists_indexed rfl rfl (fun _ _ => grows_questions) hbuilds rfl
    hfirst whole_unit exposesIn_unit foreign rfl rfl rfl⟩

end SampleIndex

end NPlusOne
