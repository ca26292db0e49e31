import NPlusOne.Proofs.NodeSites
import NPlusOne.Proofs.ResolverRun
import NPlusOne.Proofs.SearchMirror

namespace NPlusOne

namespace Resolver

variable {r : Resolver} {p p' : ProjectState} {index : DefinitionIndex} {usr : String}

/-- The file under which a definition of the function is entered. -/
def entered? (r : Resolver) (usr : String) (n : Node) : Option String :=
  if n.info.usr = usr then n.file?.filter r.inProject else none

theorem entered?_eq_some {n : Node} {path : String} :
    r.entered? usr n = some path ↔
      n.info.usr = usr ∧ n.file? = some path ∧ r.inProject path = true := by
  simp [entered?, Option.filter_eq_some_iff]

/-- What an index says about a function stays; where it says nothing, a definition may be added. -/
theorem lookup_enter (hu : usr ≠ "") (index : DefinitionIndex) (n : Node) :
    (r.enter index n).lookup usr = (index.lookup usr).or (r.entered? usr n) := by
  unfold enter
  cases hfile : n.file? with
  | none => simp [entered?, hfile]
  | some path =>
    dsimp only
    by_cases husr : n.info.usr = usr
    · subst husr
      cases hl : index.lookup n.info.usr with
      | some other => simp [hl]
      | none =>
        cases hin : r.inProject path with
        | false => simp [hl, entered?, hfile, Option.filter_some, hin]
        | true => simp [hl, hu, entered?, hfile, Option.filter_some, hin, List.lookup_append]
    · have hother : (usr == n.info.usr) = false := by simpa using fun heq => husr heq.symm
      split <;> simp [entered?, husr, List.lookup_append, List.lookup_cons, hother]

theorem lookup_foldl_enter (hu : usr ≠ "") (found : List Node) (index : DefinitionIndex) :
    (found.foldl r.enter index).lookup usr =
      (index.lookup usr).or (found.findSome? (r.entered? usr)) := by
  induction found generalizing index with
  | nil => simp
  | cons n found ih =>
    rw [List.foldl_cons, ih, lookup_enter hu, Option.or_assoc, List.findSome?_cons]
    cases r.entered? usr n <;> simp

/-- The units of files that are asked for in turn; a file that does not parse has none. -/
def unitsOf (r : Resolver) : ProjectState → List String → List (Option TranslationUnit)
  | _, [] => []
  | p, path :: rest =>
    ((r.loadUnit path).run p).1.toOption :: r.unitsOf ((r.loadUnit path).run p).2 rest

theorem unitsOf_relogged (h : p.Relogged p') (paths : List String) :
    r.unitsOf p paths = r.unitsOf p' paths := by
  induction paths generalizing p p' with
  | nil => rfl
  | cons path rest ih =>
    obtain ⟨hres, hrel⟩ := r.mirrored_relogged.loadUnit path p p' h
    rw [unitsOf, unitsOf, hres, ih hrel]

/-- The site begins with the number of a file that has a unit and goes on inside the unit. -/
abbrev Exposes (units : List (Option TranslationUnit)) : List Nat → Node → Prop :=
  Among (fun u site d => ∃ unit, u = some unit ∧ unit.Exposes site d) units

/-- A function definition with the USR at the site, in a file of the project. -/
def Candidate (r : Resolver) (units : List (Option TranslationUnit)) (usr : String)
    (site : List Nat) (path : String) : Prop :=
  ∃ d, Exposes units site d ∧ d.info.usr = usr ∧ d.file? = some path ∧ r.inProject path = true

/-- The answer is the file of the first candidate, and there is none where there is no candidate. -/
def AnswersFirst (r : Resolver) (units : List (Option TranslationUnit)) (usr : String) :
    Option String → Prop
  | some path => ∃ site, r.Candidate units usr site path ∧
    ∀ site' path', r.Candidate units usr site' path' → site' = site ∨ List.Lex (· < ·) site site'
  | none => ∀ site path, ¬ r.Candidate units usr site path

theorem answersFirst_of_enumerates {units : List (Option TranslationUnit)} {found : List Node}
    (h : Enumerates (Exposes units) found) :
    r.AnswersFirst units usr (found.findSome? (r.entered? usr)) := by
  cases hfirst : found.findSome? (r.entered? usr) with
  | none =>
    rintro site path ⟨d, hd, hentry⟩
    have hno := h.findSome?_eq_none hfirst hd
    cases hno.symm.trans (entered?_eq_some.mpr hentry)
  | some path =>
    obtain ⟨site, d, hd, hentry, hmin⟩ := h.findSome?_eq_some hfirst
    refine ⟨site, ⟨d, hd, entered?_eq_some.mp hentry⟩, ?_⟩
    rintro site' path' ⟨d', hd', hentry'⟩
    have hsome : (r.entered? usr d').isSome := by simp [entered?_eq_some.mpr hentry']
    exact hmin site' d' hd' hsome

theorem run_indexFiles_unparsed {path : String} {rest : List String} {e : ParseError}
    (h : (r.loadUnit path).run p = (.error (.parse e), p')) :
    (r.indexFiles (path :: rest) index).run p = (r.indexFiles rest index).run (HasLog.append
      ⟨.warning, .resolver, s!"Skipping {path} in definition index: {e.message}"⟩ p') := by
  have hcatch : (catchParse (r.loadUnit path)).run p = (.ok (.error e), p') := by
    rw [Task.run_catchParse, h]
    rfl
  rw [indexFiles, Task.run_bind_ok hcatch]
  rfl

theorem run_indexFiles_parsed {path : String} {rest : List String} {unit : TranslationUnit}
    (h : (r.loadUnit path).run p = (.ok unit, p')) :
    (r.indexFiles (path :: rest) index).run p = (Task.ofExcept unit.indexed >>= fun found =>
      r.indexFiles rest (found.foldl r.enter index)).run p' := by
  have hcatch : (catchParse (r.loadUnit path)).run p = (.ok (.ok unit), p') := by
    rw [Task.run_catchParse, h]
    rfl
  rw [indexFiles, Task.run_bind_ok hcatch]

/-- A file stops the making of the index unless it has a unit or does not parse. -/
theorem run_indexFiles_stopped {path : String} {rest : List String} {e : Failure}
    (h : (r.loadUnit path).run p = (.error e, p')) (he : ∀ error, e ≠ .parse error) :
    (r.indexFiles (path :: rest) index).run p = (.error e, p') := by
  have hcatch : (catchParse (r.loadUnit path)).run p = (.error e, p') := by
    rw [Task.run_catchParse, h]
    cases e with
    | parse error => exact absurd rfl (he error)
    | _ => rfl
  rw [indexFiles, Task.run_bind_error hcatch]

/-- Making the index goes from file to file. -/
theorem indexFiles_cons {path : String} {rest : List String} {index index' : DefinitionIndex}
    (h : ((r.indexFiles (path :: rest) index).run p).1 = .ok index') :
    ∃ next these, ((r.loadUnit path).run p).2.Relogged next ∧
      (r.indexFiles (path :: rest) index).run p =
        (r.indexFiles rest (these.foldl r.enter index)).run next ∧
      Enumerates (fun site d => ∃ unit, ((r.loadUnit path).run p).1.toOption = some unit ∧
        unit.Exposes site d) these := by
  rcases hload : (r.loadUnit path).run p with ⟨e | unit, q⟩
  · by_cases he : ∃ error, e = .parse error
    · obtain ⟨error, rfl⟩ := he
      refine ⟨_, [], .append _ q, run_indexFiles_unparsed hload, .nil ?_⟩
      rintro site d ⟨unit, hno, _⟩
      cases hno
    · rw [run_indexFiles_stopped hload (by simpa using he)] at h
      cases h
  · rw [run_indexFiles_parsed hload] at h ⊢
    cases hindexed : unit.indexed with
    | error e =>
      rw [hindexed] at h
      cases h
    | ok these =>
      refine ⟨q, these, .refl q, rfl, ?_⟩
      refine (TranslationUnit.enumerates_indexed hindexed).of_iff fun site d => ?_
      simp [Except.toOption]

/-- What is entered are the definitions that the units of the files expose, in the order of their
sites. -/
theorem enumerates_indexFiles {paths : List String} {index index' : DefinitionIndex}
    (h : ((r.indexFiles paths index).run p).1 = .ok index') :
    ∃ found, Enumerates (Exposes (r.unitsOf p paths)) found ∧
      index' = found.foldl r.enter index := by
  induction paths generalizing p index with
  | nil =>
    cases h
    exact ⟨[], .empty, rfl⟩
  | cons path rest ih =>
    obtain ⟨next, these, hlog, hrun, hthese⟩ := indexFiles_cons h
    rw [hrun] at h
    obtain ⟨found, hfound, rfl⟩ := ih h
    rw [← unitsOf_relogged hlog] at hfound
    exact ⟨these ++ found, .cons hthese hfound, List.foldl_append.symm⟩

/-- An index that is made from scratch answers by the first definitions. -/
theorem answersFirst_lookup {paths : List String}
    (h : ((r.indexFiles paths []).run p).1 = .ok index) (hu : usr ≠ "") :
    r.AnswersFirst (r.unitsOf p paths) usr (index.lookup usr) := by
  obtain ⟨found, hfound, rfl⟩ := enumerates_indexFiles h
  rw [lookup_foldl_enter hu]
  exact answersFirst_of_enumerates hfound

end Resolver

end NPlusOne
