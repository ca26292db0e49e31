import NPlusOne.Proofs.OpenedNodes
import NPlusOne.Proofs.ResolverSession

namespace NPlusOne

theorem Task.bind_fails_iff {σ α β : Type} {x : Task σ α} {f : α → Task σ β} {st : σ}
    {e : Failure} : ((x >>= f).run st).1 = .error e ↔
      (x.run st).1 = .error e ∨
        ∃ a mid, x.run st = (.ok a, mid) ∧ ((f a).run mid).1 = .error e := by
  rcases h : x.run st with ⟨e' | a, mid⟩
  · rw [run_bind_error h]
    constructor
    · intro he
      cases he
      exact .inl rfl
    · rintro (he | ⟨a, mid, hrun, _⟩)
      · cases he
        rfl
      · cases hrun
  · rw [run_bind_ok h]
    constructor
    · exact fun hf => .inr ⟨a, mid, rfl, hf⟩
    · rintro (hno | ⟨_, _, hrun, hf⟩)
      · cases hno
      · cases hrun
        exact hf

/-- Whatever the file, the options can be passed on to the compiler. -/
def CompilerOptions.Usable (o : CompilerOptions) : Prop :=
  ∀ path, ∃ arguments, o.argumentsFor path = .ok arguments

/-- A file has no unit only if it does not parse. -/
theorem FrontEnd.Loads.parse_of_error {f : FrontEnd} {path : String} {c c' : UnitCache}
    {e : Failure} (h : f.Loads path c (.error e) c') (ho : f.options.Usable) :
    ∃ error, e = .parse error := by
  cases h with
  | missing | rejected | nothing => exact ⟨_, rfl⟩
  | unfit _ _ hno =>
    obtain ⟨arguments, hyes⟩ := ho path
    cases hno.symm.trans hyes

namespace Resolver

variable {r : Resolver} {p : ProjectState} {path : String} {paths rest : List String}
  {index : DefinitionIndex} {callee : Cursor} {e : Failure}

theorem parse_of_loadUnit (ho : r.frontEnd.options.Usable)
    (h : ((r.loadUnit path).run p).1 = .error e) : ∃ error, e = .parse error := by
  have hloads := FrontEnd.loads_load r.frontEnd path p.cache
  rw [loadUnit, Task.run_bind_pure, Task.run_within] at h
  cases hload : ((r.frontEnd.load path false).run p.cache).1 with
  | ok loaded =>
    rw [hload] at h
    cases h
  | error e' =>
    rw [hload] at h hloads
    cases h
    exact hloads.parse_of_error ho

theorem catchParse_loadUnit_ne_error (ho : r.frontEnd.options.Usable) :
    ((catchParse (r.loadUnit path)).run p).1 ≠ .error e := by
  rw [Task.run_catchParse]
  intro h
  cases hload : ((r.loadUnit path).run p).1 with
  | ok unit =>
    rw [hload] at h
    cases h
  | error e' =>
    obtain ⟨error, rfl⟩ := parse_of_loadUnit ho hload
    rw [hload] at h
    cases h

theorem indexFiles_cons_eq (path : String) (rest : List String) (index : DefinitionIndex) :
    r.indexFiles (path :: rest) index = r.indexFiles [path] index >>= r.indexFiles rest := by
  rw [indexFiles, indexFiles, bind_assoc]
  refine bind_congr fun outcome => ?_
  cases outcome with
  | error error =>
    rw [bind_assoc]
    rfl
  | ok unit =>
    rw [bind_assoc]
    rfl

/-- One file keeps the index from being made only if its unit cannot be searched. -/
theorem indexFiles_singleton_fails_iff (ho : r.frontEnd.options.Usable) :
    ((r.indexFiles [path] index).run p).1 = .error e ↔
      ∃ unit, ((r.loadUnit path).run p).1 = .ok unit ∧ unit.indexed = .error e := by
  rcases hload : (r.loadUnit path).run p with ⟨e' | unit, p'⟩
  · obtain ⟨error, rfl⟩ := parse_of_loadUnit ho (congrArg Prod.fst hload)
    rw [run_indexFiles_unparsed hload]
    refine iff_of_false (fun h => by cases h) ?_
    rintro ⟨unit, hno, _⟩
    cases hno
  · rw [run_indexFiles_parsed hload, Task.bind_fails_iff]
    constructor
    · rintro (h | ⟨found, mid, _, hno⟩)
      · exact ⟨unit, rfl, h⟩
      · cases hno
    · rintro ⟨_, ⟨⟩, h⟩
      exact .inl h

/-- The nodes that are opened when files are indexed in turn. -/
inductive IndexOpens (r : Resolver) :
    List String → DefinitionIndex → ProjectState → Node → Prop
  | here {path rest index p unit y} : ((r.loadUnit path).run p).1 = .ok unit →
    unit.OpensForIndex y → IndexOpens r (path :: rest) index p y
  | behind {path rest index index' p p' y} :
    (r.indexFiles [path] index).run p = (.ok index', p') → IndexOpens r rest index' p' y →
    IndexOpens r (path :: rest) index p y

theorem indexFiles_fails_iff (ho : r.frontEnd.options.Usable) :
    ((r.indexFiles paths index).run p).1 = .error e ↔
      ∃ y, r.IndexOpens paths index p y ∧ y.children = .error e := by
  induction paths generalizing index p with
  | nil =>
    refine iff_of_false (fun h => by cases h) ?_
    rintro ⟨y, hy, _⟩
    cases hy
  | cons path rest ih =>
    rw [indexFiles_cons_eq, Task.bind_fails_iff, indexFiles_singleton_fails_iff ho]
    constructor
    · rintro (⟨unit, hload, hunit⟩ | ⟨index', p', hone, hrest⟩)
      · obtain ⟨y, hy, hye⟩ := TranslationUnit.indexed_fails_iff.mp hunit
        exact ⟨y, .here hload hy, hye⟩
      · obtain ⟨y, hy, hye⟩ := ih.mp hrest
        exact ⟨y, .behind hone hy, hye⟩
    · rintro ⟨y, hy, hye⟩
      cases hy with
      | here hload hy =>
        exact .inl ⟨_, hload, TranslationUnit.indexed_fails_iff.mpr ⟨y, hy, hye⟩⟩
      | behind hone hy => exact .inr ⟨_, _, hone, ih.mpr ⟨y, hy, hye⟩⟩

theorem definitionIndex_fails_iff : (r.definitionIndex.run p).1 = .error e ↔
    p.index = none ∧ ((r.indexFiles r.project.sources []).run p).1 = .error e := by
  cases hindex : p.index with
  | some index =>
    rw [run_definitionIndex_kept hindex]
    simp
  | none =>
    cases hmade : ((r.indexFiles r.project.sources []).run p).1 with
    | ok index => simp [(run_definitionIndex_made hindex hmade).1]
    | error e' => simp [run_definitionIndex_failed hindex hmade]

theorem locate_fails_iff : ((r.locate callee).run p).1 = .error e ↔
    callee.Foreign ∧ (r.definitionIndex.run p).1 = .error e := by
  by_cases hforeign : callee.Foreign
  · rw [run_locate_foreign hforeign]
    cases (r.definitionIndex.run p).1 <;> simp [hforeign, Except.map]
  · refine iff_of_false (fun h => ?_) fun h => hforeign h.1
    unfold locate at h
    split at h
    next =>
      split at h
      next => cases h
      next => cases h
    next hunseen =>
      split at h
      next => cases h
      next hnamed => exact hforeign ⟨hunseen, hnamed⟩

/-- The nodes that are opened to find the definitions behind a callee: in the index, if it has yet
to be made, and in the file that defines the callee. -/
inductive Opens (r : Resolver) (callee : Cursor) (p : ProjectState) : Node → Prop
  | index {y} : callee.Foreign → p.index = none → r.IndexOpens r.project.sources [] p y →
    Opens r callee p y
  | definitions {path p' unit y} : (r.locate callee).run p = (.ok (some path), p') →
    ((r.loadUnit path).run p').1 = .ok unit → unit.OpensForDefinitions path y →
    Opens r callee p y

/-- A callee cannot be resolved exactly if a node that is opened for it cannot be. -/
theorem resolve_fails_iff (ho : r.frontEnd.options.Usable) :
    ((r.resolve callee).run p).1 = .error e ↔ ∃ y, r.Opens callee p y ∧ y.children = .error e := by
  unfold resolve
  rw [Task.bind_fails_iff, locate_fails_iff, definitionIndex_fails_iff, indexFiles_fails_iff ho]
  constructor
  · rintro (⟨hforeign, hindex, y, hy, hye⟩ | ⟨found, p', hlocate, h⟩)
    · exact ⟨y, .index hforeign hindex hy, hye⟩
    · cases found with
      | none => cases h
      | some path =>
        obtain hno | ⟨outcome, p'', hload, h⟩ := Task.bind_fails_iff.mp h
        · exact absurd hno (catchParse_loadUnit_ne_error ho)
        · cases outcome with
          | error error => cases h
          | ok unit =>
            obtain h | ⟨found, mid, _, hno⟩ := Task.bind_fails_iff.mp h
            · rw [TranslationUnit.listFunctions_result] at h
              obtain ⟨y, hy, hye⟩ := TranslationUnit.functionDefinitions_fails_iff.mp h
              have hunit := Task.run_catchParse_ok (congrArg Prod.fst hload)
              exact ⟨y, .definitions hlocate hunit hy, hye⟩
            · cases hno
  · rintro ⟨y, hy, hye⟩
    cases hy with
    | index hforeign hindex hy => exact .inl ⟨hforeign, hindex, y, hy, hye⟩
    | @definitions path p' unit _ hlocate hload hy =>
      have hcatch : (catchParse (r.loadUnit path)).run p' =
          (.ok (.ok unit), ((r.loadUnit path).run p').2) := by
        rw [Task.run_catchParse, hload]
        rfl
      refine .inr ⟨_, _, hlocate, ?_⟩
      dsimp only
      rw [Task.run_bind_ok hcatch]
      refine Task.bind_fails_iff.mpr (.inl ?_)
      rw [TranslationUnit.listFunctions_result]
      exact TranslationUnit.functionDefinitions_fails_iff.mpr ⟨y, hy, hye⟩

/-- All definitions that are found lie in a file. -/
theorem located_of_resolve {definitions : List Cursor}
    (h : ((r.resolve callee).run p).1 = .ok (some definitions)) {d : Cursor}
    (hd : d ∈ definitions) : d.node.file?.isSome = true := by
  have hl : Task.Ensures (fun _ => True) (r.locate callee) fun found _ =>
    ∀ path, found = some path → True := fun _ _ _ _ _ _ => trivial
  obtain ⟨path, _, loaded, nodes, _, hnodes, rfl⟩ := resolve_holds hl p trivial _ h _ rfl
  obtain ⟨node, hnode, rfl⟩ := List.mem_map.mp hd
  simp [(TranslationUnit.has_functionDefinitions hnodes hnode).1]

end Resolver

end NPlusOne
