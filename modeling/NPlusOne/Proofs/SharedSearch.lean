import NPlusOne.Proofs.SearchHome
import NPlusOne.Proofs.TaskShared

namespace NPlusOne

/-- All units that are kept are known for their paths. -/
def UnitCache.Known (known : String → TranslationUnit → Prop) (c : UnitCache) : Prop :=
  ∀ path loaded, c.find? path = some loaded → known path loaded.unit

namespace FrontEnd

variable {f : FrontEnd} {known : String → TranslationUnit → Prop}

/-- All units that the parser makes are known for their paths. -/
def Known (f : FrontEnd) (known : String → TranslationUnit → Prop) : Prop :=
  ∀ path earlier unit, f.program.parse path earlier = .unit unit → known path unit

theorem shared_parseFile (hf : f.Known known) (path : String) :
    Task.Shared (UnitCache.Known known) (Task.Gives fun loaded => known path loaded.unit)
      (f.parseFile path) := by
  have hcall (call : ParserCall) : Task.Shared (UnitCache.Known known)
      (Task.Gives fun outcome => ∀ unit, outcome = .unit unit → known call.path unit)
      (f.callParser call) :=
    .bind (.modifyGet fun _ hc => hc) fun earlier _ => .pure fun unit => hf _ _ unit
  have hnumber (unit : TranslationUnit) : Task.Shared (UnitCache.Known known)
      (Task.Gives fun loaded => loaded.unit = unit) (number unit) :=
    .bind (.modifyGet fun _ hc => hc) fun serial _ => .pure rfl
  have hwrite (level : Log.Level) (text : String) : Task.Shared (UnitCache.Known known)
      (Task.Gives fun _ => True) (Log.write level .frontEnd text) :=
    .modify fun _ hc => hc
  unfold parseFile
  split
  next => exact .throw _
  next =>
    refine .bind (.ofExcept _) fun arguments _ => (hcall _).bind fun outcome houtcome => ?_
    cases outcome with
    | rejected => exact .throw _
    | nothing => exact .throw _
    | unit unit =>
      refine (hnumber unit).bind fun loaded hloaded => ?_
      have hunit : known path loaded.unit := hloaded ▸ houtcome unit rfl
      refine .bind ((Task.Shared.stepwise _).forIn fun d _ => ?_) fun _ _ => ?_
      · split
        next => exact (hwrite _ _).bind fun _ _ => .pure trivial
        next => exact .pure trivial
      · refine .bind (.modify fun c hc => ?_) fun _ _ => (hwrite _ _).bind fun _ _ => .pure hunit
        intro other kept hkept
        rw [UnitCache.find?_put] at hkept
        split at hkept
        next heq =>
          cases hkept
          exact heq ▸ hunit
        next => exact hc other kept hkept

theorem shared_load (hf : f.Known known) (path : String) (force : Bool) :
    Task.Shared (UnitCache.Known known)
      (Task.Gives fun loaded => known (f.files.absolute path) loaded.unit) (f.load path force) := by
  unfold load
  refine Task.Shared.get.bind fun c hc => ?_
  rcases hfind : c.find? (f.files.absolute path) with _ | loaded
  · simp only
    exact shared_parseFile hf (f.files.absolute path)
  · simp only
    split
    next => exact shared_parseFile hf (f.files.absolute path)
    next => exact .pure (hc _ loaded hfind)

end FrontEnd

namespace Resolver

variable {r : Resolver} {known : String → TranslationUnit → Prop}

/-- The units are known, and the index lists the project's own files. -/
structure Sound (r : Resolver) (known : String → TranslationUnit → Prop) (p : ProjectState) :
    Prop where
  units : p.cache.Known known
  indexed : r.Indexed p

/-- The body lies in a file of the project and belongs to a unit that is known for the file. -/
def Admits (r : Resolver) (known : String → TranslationUnit → Prop) (c : Cursor) : Prop :=
  c.Housed fun file unit => r.inProject file = true ∧ known (r.frontEnd.files.absolute file) unit

theorem shared_write (level : Log.Level) (channel : Log.Channel) (text : String) :
    Task.Shared (r.Sound known) (Task.Gives fun _ => True) (Log.write level channel text) :=
  .modify fun _ hp => ⟨hp.units, hp.indexed⟩

section

variable (hf : r.frontEnd.Known known)

include hf

theorem shared_loadUnit (path : String) :
    Task.Shared (r.Sound known)
      (Task.Gives fun unit => known (r.frontEnd.files.absolute path) unit) (r.loadUnit path) := by
  refine .bind (.within (fun _ hp => hp.units) (fun _ _ hp hc => ⟨hc, hp.indexed⟩)
    (FrontEnd.shared_load hf path false)) fun loaded hloaded => .pure hloaded

theorem shared_indexFiles (paths : List String) {index : DefinitionIndex} (hi : r.Lists index) :
    Task.Shared (r.Sound known) (Task.Gives r.Lists) (r.indexFiles paths index) := by
  induction paths generalizing index with
  | nil => exact .pure hi
  | cons path rest ih =>
    refine (shared_loadUnit hf path).catchParse.bind fun outcome _ => ?_
    cases outcome with
    | error e => exact (shared_write _ _ _).bind fun _ _ => ih hi
    | ok unit => exact .bind (.ofExcept _) fun found _ => ih (hi.foldl_enter found)

theorem shared_definitionIndex :
    Task.Shared (r.Sound known) (Task.Gives r.Lists) r.definitionIndex := by
  refine .locked (Task.Shared.get.bind fun p hp => ?_)
  split
  next index hindex => exact .pure (hp.indexed index hindex)
  next =>
    refine (shared_indexFiles hf _ Lists.nil).bind fun index hi => ?_
    refine (shared_write _ _ _).bind fun _ _ => .bind (.modify fun p hp => ?_) fun _ _ => .pure hi
    refine ⟨hp.units, ?_⟩
    rintro _ ⟨⟩
    exact hi

theorem shared_locate (callee : Cursor) :
    Task.Shared (r.Sound known) (Task.Gives fun found => ∀ path, found = some path → r.Owns path)
      (r.locate callee) := by
  unfold locate
  split
  next path hdef =>
    obtain ⟨d, _, hfile⟩ := Option.bind_eq_some_iff.mp hdef
    split
    next hin =>
      refine .pure ?_
      rintro _ ⟨⟩
      exact ⟨hin, Node.normal_file? hfile⟩
    next => exact (shared_write _ _ _).bind fun _ _ => .pure (by simp)
  next =>
    split
    next => exact .pure (by simp)
    next =>
      exact (shared_definitionIndex hf).bind fun index hi => .pure fun path hp => hi.lookup hp

theorem shared_resolve (callee : Cursor) :
    Task.Shared (r.Sound known)
      (Task.Gives fun found => ∀ ds, found = some ds → ∀ d ∈ ds, r.Admits known d)
      (r.resolve callee) := by
  refine (shared_locate hf callee).bind fun found hfound => ?_
  cases found with
  | none => exact (shared_write _ _ _).bind fun _ _ => .pure (by simp)
  | some path =>
    obtain ⟨hin, hnormal⟩ := hfound path rfl
    refine (shared_loadUnit hf path).catchParse.bind fun outcome houtcome => ?_
    cases outcome with
    | error e => exact (shared_write _ _ _).bind fun _ _ => .pure (by simp)
    | ok unit =>
      have hlist : Task.Shared (r.Sound known)
          (Task.Gives fun nodes => unit.functionDefinitions path = .ok nodes)
          (unit.listFunctions path) := by
        refine .bind (.ofExcept_eq _) fun nodes hnodes => ?_
        exact (shared_write _ _ _).bind fun _ _ => .pure hnodes
      refine hlist.bind fun nodes hnodes => .pure ?_
      rintro _ ⟨⟩ d hd
      obtain ⟨node, hnode, rfl⟩ := List.mem_map.mp hd
      obtain ⟨hfile, hhas⟩ := TranslationUnit.has_functionDefinitions hnodes hnode
      exact ⟨path, hfile.trans (congrArg some hnormal), ⟨hin, houtcome unit rfl⟩, hhas⟩

end

end Resolver

namespace LoopSearch

variable {r : Resolver} {known : String → TranslationUnit → Prop} {s : LoopSearch ProjectState}

/-- Everything that was walked is admitted. -/
structure Orderly (r : Resolver) (known : String → TranslationUnit → Prop)
    (st : WalkState ProjectState) : Prop where
  project : r.Sound known st.project
  walked : ∀ c ∈ st.walked, r.Admits known c

/-- A search among others keeps to bodies that are admitted. -/
theorem throughout_orderly (hf : r.frontEnd.Known known) (hr : s.resolve = r.resolve) :
    s.Throughout
      (fun (_ : Unit) _ task => Task.Shared (Orderly r known) (Task.Gives fun _ => True) task)
      (fun _ => r.Admits known) where
  stepwise _ := Task.Shared.stepwise _
  look _ _ _ hf := .bind .get fun st _ => hf st.memo
  write _ _ _ _ := .modify fun _ h => ⟨⟨h.project.units, h.project.indexed⟩, h.walked⟩
  memo _ _ _ := .modifyGet fun _ h => ⟨h.project, h.walked⟩
  emit _ _ := .modify fun _ h => ⟨h.project, h.walked⟩
  walk _ c hc := by
    refine .modify fun st h => ⟨h.project, fun d hd => ?_⟩
    rcases List.mem_append.mp hd with hd | hd
    · exact h.walked d hd
    · exact List.mem_singleton.mp hd ▸ hc
  near _ _ _ := Cursor.Housed.near
  elsewhere _ check callee call hcheck := by
    rw [hr]
    refine .bind (.within (fun _ hst => hst.project) (fun _ _ hst hp => ⟨hp, hst.walked⟩)
      (Resolver.shared_resolve hf callee)) fun found hfound => ?_
    cases found with
    | none => exact .pure trivial
    | some ds =>
      exact stepwise_checkAll (Task.Shared.stepwise _)
        (fun d hd => hcheck () d call (hfound ds rfl d hd)) false

/-- From a loop that is admitted a search walks only bodies that are, whatever other searches do at
the same time. -/
theorem shared_checkLoop (hf : r.frontEnd.Known known) (hr : s.resolve = r.resolve) {c : Cursor}
    (hc : r.Admits known c) :
    Task.Shared (Orderly r known) (Task.Gives fun _ => True) (s.checkLoop c) :=
  (throughout_orderly hf hr).checkLoop (b := ()) hc

end LoopSearch

end NPlusOne
