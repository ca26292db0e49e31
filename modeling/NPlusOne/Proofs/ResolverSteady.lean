import NPlusOne.Proofs.QueryReach
import NPlusOne.Proofs.ResolverRun

namespace NPlusOne

namespace Task

variable {σ τ α β : Type} {holds : σ → Prop}

/-- From every state with `holds` the task gives the result and keeps `holds`. -/
def Settles (holds : σ → Prop) (task : Task σ α) (result : Except Failure α) : Prop :=
  ∀ st, holds st → (task.run st).1 = result ∧ holds (task.run st).2

/-- The result of the task is the same from every state with `holds`. -/
def Determined (holds : σ → Prop) (task : Task σ α) : Prop :=
  ∃ result, Settles holds task result

theorem Settles.pure (a : α) : Settles holds (pure a) (.ok a) :=
  fun _ hst => ⟨rfl, hst⟩

theorem Settles.throw (e : Failure) : Settles holds (throw e : Task σ α) (.error e) :=
  fun _ hst => ⟨rfl, hst⟩

theorem Settles.modify {f : σ → σ} (hf : ∀ st, holds st → holds (f st)) :
    Settles holds (modify f : Task σ PUnit) (.ok ⟨⟩) :=
  fun st hst => ⟨rfl, hf st hst⟩

theorem Settles.bind {x : Task σ α} {f : α → Task σ β} {a : α} {r : Except Failure β}
    (hx : Settles holds x (.ok a)) (hf : Settles holds (f a) r) : Settles holds (x >>= f) r := by
  intro st hst
  obtain ⟨hres, hkeep⟩ := hx st hst
  rw [run_bind, hres]
  exact hf _ hkeep

theorem Settles.bind_error {x : Task σ α} {f : α → Task σ β} {e : Failure}
    (hx : Settles holds x (.error e)) : Settles holds (x >>= f) (.error e) := by
  intro st hst
  obtain ⟨hres, hkeep⟩ := hx st hst
  rw [run_bind, hres]
  exact ⟨rfl, hkeep⟩

theorem Determined.bind {x : Task σ α} {f : α → Task σ β} (hx : Determined holds x)
    (hf : ∀ a, Determined holds (f a)) : Determined holds (x >>= f) := by
  obtain ⟨r, hr⟩ := hx
  cases r with
  | error e => exact ⟨.error e, hr.bind_error⟩
  | ok a =>
    obtain ⟨r', hr'⟩ := hf a
    exact ⟨r', hr.bind hr'⟩

theorem Settles.locked {x : Task σ α} {r : Except Failure α} (h : Settles holds x r) :
    Settles holds x.locked r := by
  intro st hst
  rw [run_locked]
  exact h st hst

theorem Determined.stepwise (holds : σ → Prop) :
    Stepwise (fun _ => True) fun α (task : Task σ α) => Determined holds task :=
  ⟨fun a => ⟨_, .pure a⟩, fun e _ => ⟨_, .throw e⟩, Determined.bind,
    fun ⟨r, h⟩ => ⟨r, h.locked⟩⟩

theorem Determined.catchParse {x : Task σ α} (hx : Determined holds x) :
    Determined holds (NPlusOne.catchParse x) := by
  obtain ⟨r, hr⟩ := hx
  have hattempt : Settles holds (Task.attempt x) (.ok r) := by
    intro st hst
    rw [run_attempt]
    exact ⟨congrArg Except.ok (hr st hst).1, (hr st hst).2⟩
  unfold NPlusOne.catchParse
  refine Determined.bind ⟨_, hattempt⟩ fun r => ?_
  split
  · exact ⟨_, .pure _⟩
  · exact ⟨_, .pure _⟩
  · exact ⟨_, .throw _⟩

end Task

/-- Every parse of a path has the same outcome. -/
def Program.Single (p : Program) : Prop :=
  ∀ path earlier, p.parse path earlier = p.parse path 0

theorem Program.single_of_length_le_one {p : Program}
    (h : ∀ entry ∈ p.outcomes, entry.2.length ≤ 1) : p.Single := by
  intro path earlier
  unfold parse
  cases hfind : p.outcomes.find? (·.1 = path) with
  | none => rfl
  | some entry =>
    obtain ⟨name, outcomes⟩ := entry
    have hlen := h _ (List.mem_of_find?_eq_some hfind)
    match outcomes with
    | [] => rfl
    | [outcome] => rfl

namespace FrontEnd

variable {f : FrontEnd} {path : String} {unit : TranslationUnit}

/-- Parsing the file is possible and gives the unit. -/
def Parses (f : FrontEnd) (path : String) (unit : TranslationUnit) : Prop :=
  f.files.contains path = true ∧ (∃ arguments, f.options.argumentsFor path = .ok arguments) ∧
    f.program.parse path 0 = .unit unit

/-- What the cache keeps is what the parser gives. -/
def Agrees (f : FrontEnd) (c : UnitCache) : Prop :=
  ∀ path loaded, c.find? path = some loaded → f.Parses path loaded.unit

theorem Agrees.put {c : UnitCache} {loaded : LoadedUnit} (h : f.Agrees c)
    (hp : f.Parses path loaded.unit) : f.Agrees (c.put path loaded) := by
  intro other loaded' hfind
  rw [UnitCache.find?_put] at hfind
  split at hfind
  next heq =>
    cases hfind
    exact heq ▸ hp
  next => exact h other loaded' hfind

/-- What the first parse of a file comes to. -/
def outcome (f : FrontEnd) (path : String) : Except Failure TranslationUnit :=
  if f.files.contains path then do
    let _ ← f.options.argumentsFor path
    match f.program.parse path 0 with
    | .unit unit => .ok unit
    | .rejected => .error (.parse (.rejected path))
    | .nothing => .error (.parse (.noUnit path))
  else .error (.parse (.sourceMissing path))

theorem Parses.outcome_eq (h : f.Parses path unit) : f.outcome path = .ok unit := by
  obtain ⟨hcontains, ⟨arguments, harguments⟩, hparse⟩ := h
  simp [outcome, hcontains, harguments, hparse, bind, Except.bind]

/-- Apart from the serial number, loading a file gives the same from every cache. -/
theorem Loads.outcome_eq {c c' : UnitCache} {r : Except Failure LoadedUnit} (hs : f.program.Single)
    (hc : f.Agrees c) (h : f.Loads path c r c') :
    r.map LoadedUnit.unit = f.outcome path ∧ f.Agrees c' := by
  cases h with
  | kept hfind => exact ⟨(hc _ _ hfind).outcome_eq.symm, hc⟩
  | missing _ hcontains => exact ⟨by simp [outcome, hcontains, Except.map], hc⟩
  | unfit _ hcontains harguments =>
    exact ⟨by simp [outcome, hcontains, harguments, Except.map, bind, Except.bind], hc⟩
  | rejected _ hcontains harguments hparse | nothing _ hcontains harguments hparse =>
    rw [hs] at hparse
    exact ⟨by simp [outcome, hcontains, harguments, hparse, Except.map, bind, Except.bind], hc⟩
  | parsed _ hcontains harguments hparse =>
    rw [hs] at hparse
    have hp : f.Parses path _ := ⟨hcontains, ⟨_, harguments⟩, hparse⟩
    exact ⟨hp.outcome_eq.symm, hc.put hp⟩

end FrontEnd

namespace Resolver

variable {r : Resolver}

/-- The cache agrees with the parser, and the index is the one that is made from scratch. -/
structure Consistent (r : Resolver) (p : ProjectState) : Prop where
  cache : r.frontEnd.Agrees p.cache
  index : ∀ index, p.index = some index →
    ((r.indexFiles r.project.sources []).run {}).1 = .ok index

theorem Consistent.empty : r.Consistent {} :=
  ⟨by simp [FrontEnd.Agrees, UnitCache.find?], by simp⟩

theorem Consistent.append {p : ProjectState} (h : r.Consistent p) (entry : Log.Entry) :
    r.Consistent (HasLog.append entry p) :=
  ⟨h.cache, h.index⟩

theorem determined_write (level : Log.Level) (channel : Log.Channel) (text : String) :
    Task.Determined r.Consistent (Log.write level channel text) :=
  ⟨_, .modify fun _ hp => hp.append _⟩

theorem loadUnit_determined (hs : r.frontEnd.program.Single) (path : String) :
    Task.Determined r.Consistent (r.loadUnit path) := by
  refine ⟨r.frontEnd.outcome (r.frontEnd.files.absolute path), fun p hp => ?_⟩
  obtain ⟨hres, hkept⟩ := (FrontEnd.loads_load r.frontEnd path p.cache).outcome_eq hs hp.cache
  unfold loadUnit
  rw [Task.run_bind, Task.run_within]
  generalize (r.frontEnd.load path false).run p.cache = outcome at hres hkept
  rcases outcome with ⟨e | loaded, c⟩
  · exact ⟨hres, hkept, hp.index⟩
  · exact ⟨hres, hkept, hp.index⟩

theorem indexFiles_determined (hs : r.frontEnd.program.Single) (paths : List String)
    (index : DefinitionIndex) : Task.Determined r.Consistent (r.indexFiles paths index) :=
  stepwise_indexFiles (Task.Determined.stepwise _) (fun _ => trivial)
    (fun path => (loadUnit_determined hs path).catchParse) (determined_write _ _) paths index

theorem definitionIndex_determined (hs : r.frontEnd.program.Single) :
    Task.Determined r.Consistent r.definitionIndex := by
  obtain ⟨result, hr⟩ := indexFiles_determined hs r.project.sources []
  have hscratch := (hr {} .empty).1
  refine ⟨result, .locked fun p hp => ?_⟩
  unfold makeIndex
  rw [Task.run_bind_ok (Task.run_get p)]
  cases hindex : p.index with
  | some index => exact ⟨(hp.index index hindex).symm.trans hscratch, hp⟩
  | none =>
    cases result with
    | error e => exact Task.Settles.bind_error hr p hp
    | ok index =>
      have hset : Task.Settles r.Consistent (modify fun s => { s with index := some index })
          (.ok ⟨⟩) := by
        refine .modify fun p hp => ⟨hp.cache, ?_⟩
        rintro _ ⟨⟩
        exact hscratch
      refine Task.Settles.bind hr (.bind (.modify fun _ hp => hp.append _) ?_) p hp
      exact hset.bind (.pure _)

theorem resolve_determined (hs : r.frontEnd.program.Single) (callee : Cursor) :
    Task.Determined r.Consistent (r.resolve callee) :=
  stepwise_resolve (Task.Determined.stepwise _) (fun _ => trivial)
    (fun path => (loadUnit_determined hs path).catchParse)
    (fun level channel text _ => determined_write level channel text)
    (definitionIndex_determined hs) callee

/-- Where each path has a single parse result, the resolver has one answer for each callee. -/
theorem steady {s : LoopSearch ProjectState} (hr : s.resolve = r.resolve)
    (hs : r.frontEnd.program.Single) : s.Steady r.Consistent where
  resolve callee p hp := by
    obtain ⟨result, h⟩ := resolve_determined hs callee
    rw [hr]
    exact (h p hp).2
  append entry p hp := hp.append entry
  agree := by
    rintro callee found found' ⟨p, hp, hfound⟩ ⟨p', hp', hfound'⟩
    obtain ⟨result, h⟩ := resolve_determined hs callee
    rw [hr] at hfound hfound'
    exact Except.ok.inj (hfound.symm.trans ((h p hp).1.trans ((h p' hp').1.symm.trans hfound')))

end Resolver

end NPlusOne
