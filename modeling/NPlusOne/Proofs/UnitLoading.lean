import NPlusOne.FrontEnd
import NPlusOne.Proofs.TaskRun

namespace NPlusOne

namespace UnitCache

theorem find?_put (c : UnitCache) (path other : String) (loaded : LoadedUnit) :
    (c.put path loaded).find? other = if path = other then some loaded else c.find? other := by
  unfold put find?
  by_cases h : path = other
  · simp [h]
  · have hfilter : (c.units.filter (·.1 ≠ path)).find? (·.1 = other) =
        c.units.find? (·.1 = other) := by
      rw [List.find?_filter]
      congr 1
      funext entry
      grind
    rw [List.find?_cons_of_neg (by simpa using h), hfilter, if_neg h]

/-- How often the parser was called for a path. -/
def attempts (c : UnitCache) (path : String) : Nat :=
  c.calls.countP (·.path = path)

/-- Every unit of the first cache is that of the second one. -/
def Grows (c c' : UnitCache) : Prop :=
  ∀ path loaded, c.find? path = some loaded → c'.find? path = some loaded

theorem Grows.refl (c : UnitCache) : c.Grows c :=
  fun _ _ h => h

theorem Grows.trans {a b c : UnitCache} (h : a.Grows b) (h' : b.Grows c) : a.Grows c :=
  fun path loaded hfind => h' path loaded (h path loaded hfind)

/-- The unit is the one that is kept for the path. -/
def Holds (c : UnitCache) (path : String) (unit : TranslationUnit) : Prop :=
  ∃ loaded, c.find? path = some loaded ∧ loaded.unit = unit

theorem Holds.grown {c c' : UnitCache} {path : String} {unit : TranslationUnit}
    (h : c.Holds path unit) (hg : c.Grows c') : c'.Holds path unit := by
  obtain ⟨loaded, hfind, hunit⟩ := h
  exact ⟨loaded, hg path loaded hfind, hunit⟩

theorem Holds.unique {c : UnitCache} {path : String} {unit other : TranslationUnit}
    (h : c.Holds path unit) (h' : c.Holds path other) : unit = other := by
  obtain ⟨loaded, hfind, rfl⟩ := h
  obtain ⟨loaded', hfind', rfl⟩ := h'
  cases hfind.symm.trans hfind'
  rfl

end UnitCache

theorem Value.parts_ne_tooDeep (v : Value) : v.parts ≠ .error .tooDeep := by
  unfold parts
  split <;> simp

theorem CompilerOptions.argumentsFor_ne_tooDeep (o : CompilerOptions) (path : String) :
    o.argumentsFor path ≠ .error .tooDeep := by
  have hstandard : o.standard.shown ≠ .error .tooDeep := by
    unfold Value.shown
    split <;> simp
  have hincludes := o.includePaths.parts_ne_tooDeep
  have harguments := o.arguments.parts_ne_tooDeep
  unfold argumentsFor
  cases hs : o.standard.shown <;> cases hi : o.includePaths.parts <;>
    cases ha : o.arguments.parts <;> simp_all [bind, Except.bind, pure, Except.pure]

namespace FrontEnd

/-- The entries about the errors that the parser found in a file. -/
def parseWarnings (path : String) (ds : List Diagnostic) : List Log.Entry :=
  (ds.filter fun d => Diagnostic.error ≤ d.severity).map fun d =>
    ⟨.warning, .frontEnd, s!"Parse error in {path}: {d.text}"⟩

/-- The cache when a file has been parsed. -/
def parsedCache (c : UnitCache) (path : String) (arguments : List Value) (unit : TranslationUnit) :
    UnitCache :=
  HasLog.append ⟨.debug, .frontEnd, s!"Parsed {path}"⟩
    (UnitCache.put { c with
      calls := c.calls ++ [{ path, arguments }]
      built := c.built + 1
      log := c.log ++ (parseWarnings path unit.diagnostics).toArray } path ⟨c.built + 1, unit⟩)

/-- All that can happen when the unit at a path in normal form is asked for. -/
inductive Loads (f : FrontEnd) (path : String) (c : UnitCache) :
    Except Failure LoadedUnit → UnitCache → Prop
  | kept {loaded} : c.find? path = some loaded → Loads f path c (.ok loaded) c
  | missing : c.find? path = none → f.files.contains path = false →
    Loads f path c (.error (.parse (.sourceMissing path))) c
  | unfit {e} : c.find? path = none → f.files.contains path = true →
    f.options.argumentsFor path = .error e → Loads f path c (.error e) c
  | rejected {arguments} : c.find? path = none → f.files.contains path = true →
    f.options.argumentsFor path = .ok arguments →
    f.program.parse path (c.attempts path) = .rejected →
    Loads f path c (.error (.parse (.rejected path)))
      { c with calls := c.calls ++ [{ path, arguments }] }
  | nothing {arguments} : c.find? path = none → f.files.contains path = true →
    f.options.argumentsFor path = .ok arguments →
    f.program.parse path (c.attempts path) = .nothing →
    Loads f path c (.error (.parse (.noUnit path)))
      { c with calls := c.calls ++ [{ path, arguments }] }
  | parsed {arguments unit} : c.find? path = none → f.files.contains path = true →
    f.options.argumentsFor path = .ok arguments →
    f.program.parse path (c.attempts path) = .unit unit →
    Loads f path c (.ok ⟨c.built + 1, unit⟩) (parsedCache c path arguments unit)

variable {f : FrontEnd} {path : String} {c c' : UnitCache} {r : Except Failure LoadedUnit}

theorem run_callParser (f : FrontEnd) (call : ParserCall) (c : UnitCache) :
    (f.callParser call).run c =
      (.ok (f.program.parse call.path (c.attempts call.path)),
        { c with calls := c.calls ++ [call] }) := rfl

theorem run_number (unit : TranslationUnit) (c : UnitCache) :
    (number unit).run c = (.ok ⟨c.built + 1, unit⟩, { c with built := c.built + 1 }) := rfl

theorem run_diagnostics (path : String) (ds : List Diagnostic) (c : UnitCache) :
    (forIn ds PUnit.unit fun d _ => if Diagnostic.error ≤ d.severity then do
        Log.write .warning .frontEnd s!"Parse error in {path}: {d.text}"
        pure (ForInStep.yield PUnit.unit)
      else pure (ForInStep.yield PUnit.unit) : Task UnitCache PUnit).run c =
      (.ok ⟨⟩, { c with log := c.log ++ (parseWarnings path ds).toArray }) := by
  induction ds generalizing c with
  | nil =>
    simp only [parseWarnings, List.filter_nil, List.map_nil, Array.append_empty]
    rfl
  | cons d ds ih =>
    have hfirst : (if Diagnostic.error ≤ d.severity then do
          Log.write .warning .frontEnd s!"Parse error in {path}: {d.text}"
          pure (ForInStep.yield PUnit.unit)
        else pure (ForInStep.yield PUnit.unit) : Task UnitCache (ForInStep PUnit)).run c =
        (.ok (.yield ⟨⟩), { c with log := c.log ++ (parseWarnings path [d]).toArray }) := by
      by_cases hd : Diagnostic.error ≤ d.severity
      · simp only [parseWarnings, hd, ↓reduceIte, decide_true, List.filter_cons_of_pos,
          List.filter_nil, List.map_cons, List.map_nil]
        rfl
      · simp only [parseWarnings, hd, ↓reduceIte, decide_false, Bool.false_eq_true,
          not_false_eq_true, List.filter_cons_of_neg, List.filter_nil, List.map_nil,
          Array.append_empty]
        rfl
    have hlog : parseWarnings path (d :: ds) = parseWarnings path [d] ++ parseWarnings path ds := by
      simp [parseWarnings, List.filter_cons]
      split <;> simp
    rw [List.forIn_cons, Task.run_bind_ok hfirst, hlog]
    refine (ih _).trans ?_
    simp

/-- Whatever is kept, all that can happen when the file at a path in normal form is parsed. -/
inductive Reads (f : FrontEnd) (path : String) (c : UnitCache) :
    Except Failure LoadedUnit → UnitCache → Prop
  | missing : f.files.contains path = false →
    Reads f path c (.error (.parse (.sourceMissing path))) c
  | unfit {e} : f.files.contains path = true → f.options.argumentsFor path = .error e →
    Reads f path c (.error e) c
  | rejected {arguments} : f.files.contains path = true →
    f.options.argumentsFor path = .ok arguments →
    f.program.parse path (c.attempts path) = .rejected →
    Reads f path c (.error (.parse (.rejected path)))
      { c with calls := c.calls ++ [{ path, arguments }] }
  | nothing {arguments} : f.files.contains path = true →
    f.options.argumentsFor path = .ok arguments →
    f.program.parse path (c.attempts path) = .nothing →
    Reads f path c (.error (.parse (.noUnit path)))
      { c with calls := c.calls ++ [{ path, arguments }] }
  | parsed {arguments unit} : f.files.contains path = true →
    f.options.argumentsFor path = .ok arguments →
    f.program.parse path (c.attempts path) = .unit unit →
    Reads f path c (.ok ⟨c.built + 1, unit⟩) (parsedCache c path arguments unit)

theorem reads_parseFile (f : FrontEnd) (path : String) (c : UnitCache) :
    f.Reads path c ((f.parseFile path).run c).1 ((f.parseFile path).run c).2 := by
  unfold parseFile
  cases hcontains : f.files.contains path with
  | false => exact .missing hcontains
  | true =>
    simp only [Bool.not_true, Bool.false_eq_true, ↓reduceIte]
    cases harguments : f.options.argumentsFor path with
    | error e => exact .unfit hcontains harguments
    | ok arguments =>
      rw [Task.run_bind_ok (Task.run_ofExcept _ _), Task.run_bind_ok (run_callParser f _ c)]
      cases houtcome : f.program.parse path (c.attempts path) with
      | rejected => exact .rejected hcontains harguments houtcome
      | nothing => exact .nothing hcontains harguments houtcome
      | unit unit =>
        simp only
        rw [Task.run_bind_ok (run_number unit _), Task.run_bind_ok (run_diagnostics path _ _)]
        exact .parsed hcontains harguments houtcome

theorem Reads.loads (h : f.Reads path c r c') (hnone : c.find? path = none) :
    f.Loads path c r c' := by
  cases h with
  | missing hcontains => exact .missing hnone hcontains
  | unfit hcontains harguments => exact .unfit hnone hcontains harguments
  | rejected hcontains harguments hparse => exact .rejected hnone hcontains harguments hparse
  | nothing hcontains harguments hparse => exact .nothing hnone hcontains harguments hparse
  | parsed hcontains harguments hparse => exact .parsed hnone hcontains harguments hparse

theorem run_load_forced (f : FrontEnd) (path : String) (c : UnitCache) :
    (f.load path true).run c = (f.parseFile (f.files.absolute path)).run c := by
  unfold load
  rw [Task.run_bind_ok (Task.run_get c)]
  cases hfind : c.find? (f.files.absolute path) <;> simp only [↓reduceIte]

theorem run_load_kept {loaded : LoadedUnit} (h : c.find? (f.files.absolute path) = some loaded) :
    (f.load path false).run c = (.ok loaded, c) := by
  unfold load
  rw [Task.run_bind_ok (Task.run_get c)]
  simp only [h]
  rfl

theorem run_load_fresh (h : c.find? (f.files.absolute path) = none) :
    (f.load path false).run c = (f.parseFile (f.files.absolute path)).run c := by
  unfold load
  rw [Task.run_bind_ok (Task.run_get c)]
  simp only [h]

theorem loads_load (f : FrontEnd) (path : String) (c : UnitCache) :
    f.Loads (f.files.absolute path) c ((f.load path false).run c).1
      ((f.load path false).run c).2 := by
  cases hfind : c.find? (f.files.absolute path) with
  | some loaded =>
    rw [run_load_kept hfind]
    exact .kept hfind
  | none =>
    rw [run_load_fresh hfind]
    exact (reads_parseFile f _ c).loads hfind

theorem find?_parsedCache (c : UnitCache) (path other : String) (arguments : List Value)
    (unit : TranslationUnit) :
    (parsedCache c path arguments unit).find? other =
      if path = other then some ⟨c.built + 1, unit⟩ else c.find? other :=
  UnitCache.find?_put _ path other _

namespace Loads

theorem grows (h : f.Loads path c r c') : c.Grows c' := by
  cases h with
  | kept | missing | unfit | rejected | nothing => exact .refl c
  | parsed hnone =>
    intro other loaded hfind
    have hne : path ≠ other := by
      rintro rfl
      cases hnone.symm.trans hfind
    rw [find?_parsedCache, if_neg hne]
    exact hfind

theorem find?_eq {loaded : LoadedUnit} (h : f.Loads path c (.ok loaded) c') :
    c'.find? path = some loaded := by
  cases h with
  | kept hfind => exact hfind
  | parsed => rw [find?_parsedCache, if_pos rfl]

/-- A unit of the cache was there before or comes from the parser. -/
theorem parsed_of_find? (h : f.Loads path c r c') {other : String} {loaded : LoadedUnit}
    (hfind : c'.find? other = some loaded) :
    c.find? other = some loaded ∨ ∃ earlier, f.program.parse other earlier = .unit loaded.unit := by
  cases h with
  | kept | missing | unfit | rejected | nothing => exact .inl hfind
  | parsed _ _ _ houtcome =>
    rw [find?_parsedCache] at hfind
    split at hfind
    next heq =>
      cases hfind
      exact .inr ⟨_, heq ▸ houtcome⟩
    next => exact .inl hfind

theorem log_eq (h : f.Loads path c r c') :
    ∃ entries : List Log.Entry, c'.log.toList = c.log.toList ++ entries ∧
      ∀ entry ∈ entries, entry.channel = .frontEnd := by
  cases h with
  | kept | missing | unfit | rejected | nothing => exact ⟨[], by simp, by simp⟩
  | @parsed arguments unit =>
    refine ⟨parseWarnings path unit.diagnostics ++ [⟨.debug, .frontEnd, s!"Parsed {path}"⟩], ?_, ?_⟩
    · simp [parsedCache, HasLog.append, UnitCache.put]
    · simp only [List.mem_append, List.mem_singleton]
      rintro entry (hmem | rfl)
      · obtain ⟨d, _, rfl⟩ := List.mem_map.mp hmem
        rfl
      · rfl

theorem ne_tooDeep (h : f.Loads path c r c') : r ≠ .error .tooDeep := by
  cases h with
  | kept | missing | rejected | nothing | parsed => simp
  | unfit _ _ harguments =>
    rintro ⟨⟩
    exact CompilerOptions.argumentsFor_ne_tooDeep _ _ harguments

end Loads

theorem load_holds (f : FrontEnd) (path : String) :
    Task.Ensures (fun _ => True) (f.load path false) fun loaded c =>
      c.Holds (f.files.absolute path) loaded.unit := by
  intro c _ loaded hloaded
  have hl := loads_load f path c
  rw [hloaded] at hl
  exact ⟨loaded, hl.find?_eq, rfl⟩

end FrontEnd

end NPlusOne
