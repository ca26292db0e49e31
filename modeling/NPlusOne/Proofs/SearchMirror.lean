import NPlusOne.Proofs.ResolverRun
import NPlusOne.Proofs.SearchTraversal
import NPlusOne.Proofs.TaskMirror

namespace NPlusOne

namespace Resolver

variable {r : Resolver} {rel : ProjectState → ProjectState → Prop}

/-- The resolver cannot tell related states from each other. -/
structure Mirrored (r : Resolver) (rel : ProjectState → ProjectState → Prop) : Prop where
  loadUnit : ∀ path, Task.Mirrors rel (r.loadUnit path)
  log : ∀ entry p p', rel p p' → rel (HasLog.append entry p) (HasLog.append entry p')
  index_eq : ∀ p p', rel p p' → p.index = p'.index
  setIndex : ∀ index p p', rel p p' →
    rel { p with index := some index } { p' with index := some index }

namespace Mirrored

theorem write (h : r.Mirrored rel) (level : Log.Level) (channel : Log.Channel) (text : String) :
    Task.Mirrors rel (Log.write level channel text) :=
  .modify fun p p' hp => h.log _ p p' hp

theorem indexFiles (h : r.Mirrored rel) (paths : List String) (index : DefinitionIndex) :
    Task.Mirrors rel (r.indexFiles paths index) :=
  stepwise_indexFiles (Task.Mirrors.stepwise rel) (fun _ => trivial)
    (fun path => (h.loadUnit path).catchParse) (h.write _ _) paths index

theorem definitionIndex (h : r.Mirrored rel) : Task.Mirrors rel r.definitionIndex := by
  refine .locked (.get_bind (fun p p' hp => by rw [h.index_eq p p' hp]) fun p => ?_)
  split
  next => exact .pure _
  next =>
    refine (h.indexFiles _ _).bind fun index => (h.write _ _ _).bind fun _ => ?_
    exact .bind (.modify (h.setIndex index)) fun _ => .pure _

theorem resolve (h : r.Mirrored rel) (callee : Cursor) : Task.Mirrors rel (r.resolve callee) :=
  stepwise_resolve (Task.Mirrors.stepwise rel) (fun _ => trivial)
    (fun path => (h.loadUnit path).catchParse)
    (fun level channel text _ => h.write level channel text) h.definitionIndex callee

end Mirrored

end Resolver

/-- The states agree on functions, reports and walks, and what the resolver keeps is related. -/
structure WalkState.Alike {ρ : Type} (rel : ρ → ρ → Prop) (st st' : WalkState ρ) : Prop where
  memo : st.memo = st'.memo
  reports : st.reports = st'.reports
  walked : st.walked = st'.walked
  project : rel st.project st'.project

namespace LoopSearch

variable {ρ : Type} [HasLog ρ] {s : LoopSearch ρ} {rel : ρ → ρ → Prop}

/-- The resolver of calls cannot tell related states from each other, and neither can the log. -/
structure Mirrored (s : LoopSearch ρ) (rel : ρ → ρ → Prop) : Prop where
  resolve : ∀ callee, Task.Mirrors rel (s.resolve callee)
  log : ∀ entry p p', rel p p' → rel (HasLog.append entry p) (HasLog.append entry p')

namespace Mirrored

theorem write (h : s.Mirrored rel) (level : Log.Level) (channel : Log.Channel) (text : String) :
    Task.Mirrors (WalkState.Alike rel) (Log.write level channel text) :=
  .modify fun _ _ hst => ⟨hst.memo, hst.reports, hst.walked, h.log _ _ _ hst.project⟩

theorem throughout (h : s.Mirrored rel) :
    s.Throughout (fun (_ : Unit) _ task => Task.Mirrors (WalkState.Alike rel) task)
      (fun _ _ => True) where
  stepwise _ := Task.Mirrors.stepwise _
  look _ _ _ hf := .get_bind (fun _ _ hst => by rw [hst.memo]) fun st => hf st.memo
  write _ := h.write
  memo _ _ f := by
    intro st st' hst
    exact ⟨congrArg (fun memo => Except.ok (f memo).1) hst.memo,
      congrArg (fun memo => (f memo).2) hst.memo, hst.reports, hst.walked, hst.project⟩
  emit _ report := .modify fun _ _ hst =>
    ⟨hst.memo, congrArg (· ++ [report]) hst.reports, hst.walked, hst.project⟩
  walk _ c _ := .modify fun _ _ hst =>
    ⟨hst.memo, hst.reports, congrArg (· ++ [c]) hst.walked, hst.project⟩
  near _ _ _ _ _ _ _ := trivial
  elsewhere _ check callee call hcheck := by
    refine .bind (.within (fun _ _ hst => hst.project)
      (fun _ _ _ _ hst hp => ⟨hst.memo, hst.reports, hst.walked, hp⟩) (h.resolve callee)) ?_
    intro found
    cases found with
    | none => exact .pure _
    | some ds =>
      exact stepwise_checkAll (Task.Mirrors.stepwise _) (fun d _ => hcheck () d call trivial) false

theorem checkLoop (h : s.Mirrored rel) (c : Cursor) :
    Task.Mirrors (WalkState.Alike rel) (s.checkLoop c) :=
  h.throughout.checkLoop (b := ()) trivial

end Mirrored

end LoopSearch

/-- The caches differ in their logs at most. -/
def UnitCache.Relogged (c c' : UnitCache) : Prop :=
  ∃ log, c' = { c with log := log }

namespace FrontEnd

variable {f : FrontEnd}

theorem mirrors_write (level : Log.Level) (channel : Log.Channel) (text : String) :
    Task.Mirrors UnitCache.Relogged (Log.write level channel text) := by
  refine .modify ?_
  rintro c _ ⟨log, rfl⟩
  exact ⟨_, rfl⟩

theorem mirrors_parseFile (path : String) :
    Task.Mirrors UnitCache.Relogged (f.parseFile path) := by
  have hcall (call : ParserCall) : Task.Mirrors UnitCache.Relogged (f.callParser call) := by
    rintro c _ ⟨log, rfl⟩
    exact ⟨rfl, log, rfl⟩
  have hnumber (unit : TranslationUnit) : Task.Mirrors UnitCache.Relogged (number unit) := by
    rintro c _ ⟨log, rfl⟩
    exact ⟨rfl, log, rfl⟩
  have hput (loaded : LoadedUnit) :
      Task.Mirrors UnitCache.Relogged (modify fun c => c.put path loaded) := by
    refine .modify ?_
    rintro c _ ⟨log, rfl⟩
    exact ⟨log, rfl⟩
  unfold parseFile
  split
  next => exact .throw _
  next =>
    refine .bind (.ofExcept _) fun arguments => (hcall _).bind fun outcome => ?_
    cases outcome with
    | rejected => exact .throw _
    | nothing => exact .throw _
    | unit unit =>
      refine (hnumber unit).bind fun loaded => .bind (.forIn fun d _ => ?_) fun _ => ?_
      · split
        next => exact (mirrors_write _ _ _).bind fun _ => .pure _
        next => exact .pure _
      · exact (hput loaded).bind fun _ => (mirrors_write _ _ _).bind fun _ => .pure _

theorem mirrors_load (path : String) :
    Task.Mirrors UnitCache.Relogged (f.load path false) := by
  refine .get_bind ?_ fun c => ?_
  · rintro c _ ⟨log, rfl⟩
    rfl
  · split
    next => exact .pure _
    next => exact mirrors_parseFile _

end FrontEnd

/-- Nothing but the log of the front end has changed. -/
structure ProjectState.Relogged (p p' : ProjectState) : Prop where
  index : p.index = p'.index
  cache : p.cache.Relogged p'.cache

namespace ProjectState.Relogged

theorem refl (p : ProjectState) : p.Relogged p :=
  ⟨rfl, p.cache.log, rfl⟩

theorem trans {p q r : ProjectState} (h : p.Relogged q) (h' : q.Relogged r) : p.Relogged r := by
  obtain ⟨hindex, log, hcache⟩ := h
  obtain ⟨hindex', log', hcache'⟩ := h'
  exact ⟨hindex.trans hindex', log', by rw [hcache', hcache]⟩

theorem append (entry : Log.Entry) (p : ProjectState) : p.Relogged (HasLog.append entry p) :=
  ⟨rfl, p.cache.log.push entry, rfl⟩

end ProjectState.Relogged

/-- The states of a search differ in their logs at most. -/
abbrev WalkState.Relogged (st st' : WalkState ProjectState) : Prop :=
  Alike ProjectState.Relogged st st'

namespace WalkState.Relogged

theorem refl (st : WalkState ProjectState) : st.Relogged st :=
  ⟨rfl, rfl, rfl, .refl _⟩

theorem trans {st st' st'' : WalkState ProjectState} (h : st.Relogged st')
    (h' : st'.Relogged st'') : st.Relogged st'' :=
  ⟨h.memo.trans h'.memo, h.reports.trans h'.reports, h.walked.trans h'.walked,
    h.project.trans h'.project⟩

theorem append (entry : Log.Entry) (st : WalkState ProjectState) :
    st.Relogged (HasLog.append entry st) :=
  ⟨rfl, rfl, rfl, .append entry _⟩

end WalkState.Relogged

/-- What the log holds has no influence on a resolver. -/
theorem Resolver.mirrored_relogged (r : Resolver) : r.Mirrored ProjectState.Relogged where
  loadUnit path := by
    refine .bind (.within (fun _ _ hp => hp.cache) (fun _ _ _ _ hp hc => ⟨hp.index, hc⟩)
      (FrontEnd.mirrors_load path)) fun _ => .pure _
  log entry p p' hp := by
    obtain ⟨hindex, log, hcache⟩ := hp
    exact ⟨hindex, log.push entry, by simp [HasLog.append, hcache]⟩
  index_eq _ _ hp := hp.index
  setIndex _ _ _ hp := ⟨rfl, hp.cache⟩

end NPlusOne
