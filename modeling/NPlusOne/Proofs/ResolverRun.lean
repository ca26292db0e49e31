import NPlusOne.Project
import NPlusOne.Proofs.ExtractedNodes
import NPlusOne.Proofs.PathNormal
import NPlusOne.Proofs.UnitLoading

namespace NPlusOne

namespace Task

variable {σ α β : Type} {inv pre : σ → Prop}

theorem run_catchParse_snd (task : Task σ α) (st : σ) :
    ((catchParse task).run st).2 = (task.run st).2 := by
  unfold catchParse
  rw [run_bind_ok (run_attempt task st)]
  split <;> rfl

theorem run_catchParse_ok {task : Task σ α} {st : σ} {a : α}
    (h : ((catchParse task).run st).1 = .ok (.ok a)) : (task.run st).1 = .ok a := by
  unfold catchParse at h
  rw [run_bind_ok (run_attempt task st)] at h
  split at h
  next hres =>
    cases h
    exact hres
  next => cases h
  next => cases h

theorem run_catchParse_error {task : Task σ α} {st : σ} {e : Failure}
    (h : ((catchParse task).run st).1 = .error e) : (task.run st).1 = .error e := by
  unfold catchParse at h
  rw [run_bind_ok (run_attempt task st)] at h
  split at h
  next => cases h
  next => cases h
  next hres =>
    cases h
    exact hres

theorem Keeps.catchParse {task : Task σ α} (h : Keeps inv task) :
    Keeps inv (NPlusOne.catchParse task) := by
  intro st hst
  rw [run_catchParse_snd]
  exact h st hst

theorem Avoids.catchParse {e : Failure} {task : Task σ α} (h : Avoids e task) :
    Avoids e (NPlusOne.catchParse task) :=
  fun st he => h st (run_catchParse_error he)

theorem Ensures.catchParse {task : Task σ α} {post : α → σ → Prop} (h : Ensures pre task post) :
    Ensures pre (NPlusOne.catchParse task) fun outcome st => ∀ a, outcome = .ok a → post a st := by
  intro st hst outcome hout a ha
  rw [run_catchParse_snd]
  exact h st hst a (run_catchParse_ok (hout.trans (congrArg Except.ok ha)))

end Task

namespace Resolver

variable {r : Resolver} {inv : ProjectState → Prop}

/-- The path is that of a project file, in the form in which nodes name their files. -/
def Owns (r : Resolver) (path : String) : Prop :=
  r.inProject path = true ∧ Path.Normal path

/-- The index leads to files of the project only. -/
def Lists (r : Resolver) (index : DefinitionIndex) : Prop :=
  ∀ usr path, (usr, path) ∈ index → r.Owns path

theorem Lists.nil : r.Lists [] := by
  intro usr path h
  cases h

theorem Lists.enter {index : DefinitionIndex} (h : r.Lists index) (n : Node) :
    r.Lists (r.enter index n) := by
  unfold Resolver.enter
  split
  next => exact h
  next path hpath =>
    split
    next hnew =>
      simp only [Bool.and_eq_true] at hnew
      intro usr other hmem
      rcases List.mem_append.mp hmem with hmem | hmem
      · exact h usr other hmem
      · cases List.mem_singleton.mp hmem
        exact ⟨hnew.2, Node.normal_file? hpath⟩
    next => exact h

theorem Lists.foldl_enter {index : DefinitionIndex} (h : r.Lists index) (found : List Node) :
    r.Lists (found.foldl r.enter index) := by
  induction found generalizing index with
  | nil => exact h
  | cons n found ih => exact ih (h.enter n)

theorem Lists.lookup {index : DefinitionIndex} (h : r.Lists index) {usr path : String}
    (hp : index.lookup usr = some path) : r.Owns path := by
  obtain ⟨before, after, heq, _⟩ := List.lookup_eq_some_iff.mp hp
  exact h usr path (by simp [heq])

theorem lists_indexFiles (paths : List String) {index : DefinitionIndex} (h : r.Lists index)
    (pre : ProjectState → Prop) :
    Task.Ensures pre (r.indexFiles paths index) fun index _ => r.Lists index := by
  induction paths generalizing index pre with
  | nil => exact .pure fun _ _ => h
  | cons path rest ih =>
    unfold Resolver.indexFiles
    refine .after fun outcome => ?_
    cases outcome with
    | error e => exact .after fun _ => ih h _
    | ok unit => exact .after fun found => ih (h.foldl_enter found) _

section Stepwise

variable {fails : Failure → Prop} {holds : ∀ α : Type, Task ProjectState α → Prop}
  (h : Task.Stepwise fails holds) (hfails : ∀ reason, fails (.children reason))
  (hload : ∀ path, holds _ (catchParse (r.loadUnit path)))

include h hfails hload

theorem stepwise_indexFiles (hlog : ∀ text, holds _ (Log.write .warning .resolver text))
    (paths : List String) (index : DefinitionIndex) : holds _ (r.indexFiles paths index) := by
  induction paths generalizing index with
  | nil => exact h.pure _
  | cons path rest ih =>
    unfold indexFiles
    refine h.bind (hload path) fun outcome => ?_
    cases outcome with
    | error e => exact h.bind (hlog _) fun _ => ih index
    | ok unit =>
      refine h.bind (h.ofExcept fun e he => ?_) fun found => ih _
      obtain ⟨reason, rfl⟩ := TranslationUnit.indexed_eq_error he
      exact hfails reason

omit hfails hload in
theorem stepwise_locate
    (hlog : ∀ level channel text, channel ≠ .walk → holds _ (Log.write level channel text))
    (hindex : holds _ r.definitionIndex) (callee : Cursor) : holds _ (r.locate callee) := by
  unfold locate
  split
  next =>
    split
    next => exact h.pure _
    next => exact h.bind (hlog _ _ _ (by decide)) fun _ => h.pure _
  next =>
    split
    next => exact h.pure _
    next => exact h.bind hindex fun _ => h.pure _

theorem stepwise_resolve
    (hlog : ∀ level channel text, channel ≠ .walk → holds _ (Log.write level channel text))
    (hindex : holds _ r.definitionIndex) (callee : Cursor) : holds _ (r.resolve callee) := by
  unfold resolve
  refine h.bind (stepwise_locate h hlog hindex callee) fun found => ?_
  cases found with
  | none => exact h.bind (hlog _ _ _ (by decide)) fun _ => h.pure _
  | some path =>
    refine h.bind (hload path) fun outcome => ?_
    cases outcome with
    | error e => exact h.bind (hlog _ _ _ (by decide)) fun _ => h.pure _
    | ok unit =>
      refine h.bind (h.bind (h.ofExcept fun e he => ?_) fun found => ?_) fun _ => h.pure _
      · obtain ⟨reason, rfl⟩ := TranslationUnit.functionDefinitions_eq_error he
        exact hfails reason
      · exact h.bind (hlog _ _ _ (by decide)) fun _ => h.pure _

end Stepwise

/-- Nothing that the resolver does to its state takes the property away. -/
structure Preserves (r : Resolver) (inv : ProjectState → Prop) : Prop where
  load : ∀ path p, inv p → inv { p with cache := ((r.frontEnd.load path false).run p.cache).2 }
  log : ∀ entry p, entry.channel ≠ .walk → inv p → inv (HasLog.append entry p)
  index : ∀ index p, r.Lists index → inv p → inv { p with index := some index }

namespace Preserves

theorem write (h : r.Preserves inv) (level : Log.Level) {channel : Log.Channel}
    (hc : channel ≠ .walk) (text : String) : Task.Keeps inv (Log.write level channel text) :=
  .modify fun p hp => h.log _ p hc hp

theorem loadUnit (h : r.Preserves inv) (path : String) : Task.Keeps inv (r.loadUnit path) :=
  .bind (.within (h.load path)) fun _ => .pure _

theorem indexFiles (h : r.Preserves inv) (paths : List String) (index : DefinitionIndex) :
    Task.Keeps inv (r.indexFiles paths index) :=
  stepwise_indexFiles (Task.Keeps.stepwise inv) (fun _ => trivial)
    (fun path => (h.loadUnit path).catchParse) (h.write _ (by decide)) paths index

theorem definitionIndex (h : r.Preserves inv) : Task.Keeps inv r.definitionIndex := by
  refine .locked (.bind .get fun p => ?_)
  split
  next => exact .pure _
  next =>
    refine Task.Leads.bind (fun _ hp => hp) (h.indexFiles _ []) (lists_indexFiles _ Lists.nil inv)
      fun index p ⟨hp, hi⟩ => ?_
    have hset : Task.Keeps inv (modify fun p => { p with index := some index }) :=
      .modify fun p hp => h.index index p hi hp
    exact ((h.write _ (by decide) _).bind fun _ => hset.bind fun _ => .pure _) p hp

theorem locate (h : r.Preserves inv) (callee : Cursor) : Task.Keeps inv (r.locate callee) :=
  stepwise_locate (Task.Keeps.stepwise inv) (fun level _ text hc => h.write level hc text)
    h.definitionIndex callee

theorem resolve (h : r.Preserves inv) (callee : Cursor) : Task.Keeps inv (r.resolve callee) :=
  stepwise_resolve (Task.Keeps.stepwise inv) (fun _ => trivial)
    (fun path => (h.loadUnit path).catchParse) (fun level _ text hc => h.write level hc text)
    h.definitionIndex callee

end Preserves

theorem lists_definitionIndex :
    Task.Ensures (fun p => ∀ index, p.index = some index → r.Lists index) r.definitionIndex
      fun index _ => r.Lists index := by
  refine .locked (.get_bind fun p hp => ?_)
  split
  next index hindex => exact .pure fun _ _ => hp index hindex
  next =>
    refine (lists_indexFiles _ Lists.nil _).bind fun index => ?_
    exact .of_prop fun hi => .after fun _ => .after fun _ => .pure fun _ _ => hi

/-- A file that is located is the project's own, where the index lists such files only. -/
theorem locate_owns (callee : Cursor) :
    Task.Ensures (fun p => ∀ index, p.index = some index → r.Lists index) (r.locate callee)
      fun found _ => ∀ path, found = some path → r.Owns path := by
  unfold locate
  split
  next path hdef =>
    obtain ⟨d, _, hfile⟩ := Option.bind_eq_some_iff.mp hdef
    split
    next hin =>
      refine .pure fun _ _ => ?_
      rintro _ ⟨⟩
      exact ⟨hin, Node.normal_file? hfile⟩
    next => exact .after fun _ => .pure fun _ _ => by simp
  next =>
    split
    next => exact .pure fun _ _ => by simp
    next => exact lists_definitionIndex.bind fun index => .pure fun _ hi path hp => hi.lookup hp

theorem loadUnit_holds (path : String) :
    Task.Ensures (fun _ => True) (r.loadUnit path) fun unit p =>
      p.cache.Holds (r.frontEnd.files.absolute path) unit :=
  (r.frontEnd.load_holds path).within.bind fun _ => .pure fun _ hkept => hkept

/-- The definitions are those of one file, and the unit of the file is kept. -/
def Holds (r : Resolver) (p : ProjectState) (path : String) (ds : List Cursor) : Prop :=
  ∃ loaded nodes, p.cache.find? (r.frontEnd.files.absolute path) = some loaded ∧
    loaded.unit.functionDefinitions path = .ok nodes ∧ ds = nodes.map (⟨loaded.unit, ·⟩)

/-- What the resolver gives are the definitions of a file that it has located. -/
theorem resolve_holds {callee : Cursor} {pre : ProjectState → Prop} {good : String → Prop}
    (hl : Task.Ensures pre (r.locate callee) fun found _ => ∀ path, found = some path → good path) :
    Task.Ensures pre (r.resolve callee) fun found p => ∀ ds, found = some ds →
      ∃ path, good path ∧ r.Holds p path ds := by
  unfold resolve
  refine hl.bind fun found => ?_
  cases found with
  | none => exact .after fun _ => .pure fun _ _ => by simp
  | some path =>
    refine .of_prop fun hgood => (loadUnit_holds path).catchParse.bind fun outcome => ?_
    cases outcome with
    | error e => exact .after fun _ => .pure fun _ _ => by simp
    | ok unit =>
      intro q hkept
      obtain ⟨loaded, hfind, rfl⟩ := hkept unit rfl
      have hkeeps : Task.Keeps
          (fun p : ProjectState => p.cache.find? (r.frontEnd.files.absolute path) = some loaded)
          (loaded.unit.listFunctions path) :=
        .bind (.ofExcept _) fun _ => .bind (.modify fun _ hp => hp) fun _ => .pure _
      rw [Task.run_bind, TranslationUnit.listFunctions_result]
      cases hnodes : loaded.unit.functionDefinitions path with
      | error e =>
        intro _ hno
        cases hno
      | ok nodes =>
        rintro _ ⟨⟩ _ ⟨⟩
        exact ⟨path, hgood path rfl, loaded, nodes, hkeeps q hfind, hnodes, rfl⟩

theorem avoids_loadUnit (path : String) : Task.Avoids .tooDeep (r.loadUnit path) :=
  .bind (.within fun c => (FrontEnd.loads_load r.frontEnd path c).ne_tooDeep) fun _ => .pure _

theorem avoids_definitionIndex : Task.Avoids .tooDeep r.definitionIndex := by
  refine .locked (.bind .get fun p => ?_)
  split
  next => exact .pure _
  next =>
    have hfiles : Task.Avoids .tooDeep (r.indexFiles r.project.sources []) :=
      stepwise_indexFiles (Task.Avoids.stepwise _) (by simp)
        (fun path => (avoids_loadUnit path).catchParse) (fun _ => .modify _) _ _
    exact hfiles.bind fun index => .bind (.modify _) fun _ => .bind (.modify _) fun _ => .pure _

theorem avoids_resolve (callee : Cursor) : Task.Avoids .tooDeep (r.resolve callee) :=
  stepwise_resolve (Task.Avoids.stepwise _) (by simp)
    (fun path => (avoids_loadUnit path).catchParse) (fun _ _ _ _ => .modify _)
    avoids_definitionIndex callee

end Resolver

end NPlusOne
