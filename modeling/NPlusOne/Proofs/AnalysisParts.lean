import Mathlib.Data.List.Infix
import NPlusOne.Analysis
import NPlusOne.Proofs.PoolRun
import NPlusOne.Proofs.SearchMirror
import NPlusOne.Proofs.SortedTexts

namespace NPlusOne

namespace Text

theorem contains_iff {part text : List Char} : contains part text = true ↔ part <:+: text := by
  induction text with
  | nil => simp [contains]
  | cons c text ih => simp [contains, startsWith_iff, ih, List.infix_cons_iff]

end Text

namespace SourceLines

/-- The lines that are read from a file; an unreadable file has none. -/
def read (files : FileTree) (path : String) : Except Failure (List String) :=
  match Suppression.readLines files path with
  | .error (.path _) => .ok []
  | found => found

/-- The lines that an analysis takes for those of a file: the ones that it has kept, or else those
that it reads. -/
def seen (kept : SourceLines) (files : FileTree) (path : String) : Except Failure (List String) :=
  (kept.lookup path).elim (read files path) .ok

/-- Lines that are kept as they were read change nothing. -/
theorem seen_cons {kept : SourceLines} {files : FileTree} {path : String} {lines : List String}
    (h : kept.seen files path = .ok lines) (other : String) :
    seen ((path, lines) :: kept) files other = kept.seen files other := by
  by_cases hp : other = path
  · subst hp
    simp [seen, h.symm]
  · have hne : (other == path) = false := by simpa using hp
    simp [seen, List.lookup_cons, hne]

end SourceLines

/-- A file that is done shows in the progress and in the log, and nowhere else. -/
theorem AnalysisState.advances (path : String) (loops : Nat) (st : AnalysisState) :
    st.search.Relogged (st.advance path loops).search ∧ (st.advance path loops).lines = st.lines ∧
      (st.advance path loops).stats = st.stats := by
  unfold advance
  obtain ⟨progress, line⟩ := st.progress.update path loops
  cases line with
  | some text => exact ⟨.append _ _, rfl, rfl⟩
  | none => exact ⟨.refl _, rfl, rfl⟩

section Stepwise

variable {σ : Type} [HasLog σ] {holds : ∀ α : Type, Task σ α → Prop}
  (h : Task.Stepwise (fun _ => True) holds)
  (hlog : ∀ level channel text, holds _ (Log.write level channel text))

include h hlog

theorem TypeLookup.stepwise_lookup (units : List TranslationUnit) (library type : Value) :
    holds _ (TypeLookup.lookup units library type) := by
  unfold lookup
  refine h.bind (h.of _) fun name => h.bind (h.of _) fun found => ?_
  cases found with
  | none => exact h.pure _
  | some found => exact h.bind (hlog _ _ _) fun _ => h.pure _

theorem Registry.stepwise_registerAll {lookup : Value → Value → Task σ (Option QueryType)}
    (hlookup : ∀ library type, holds _ (lookup library type)) (registry : Registry)
    (pairs : List (Value × Value)) : holds _ (registry.registerAll lookup pairs) := by
  induction pairs generalizing registry with
  | nil => exact h.pure _
  | cons pair rest ih =>
    refine h.bind ?_ fun found => ih found.2
    unfold register
    split
    next => exact h.throw _ trivial
    next =>
      refine h.bind (hlookup _ _) fun found => ?_
      cases found with
      | none => exact h.pure _
      | some found => exact h.bind (hlog _ _ _) fun _ => h.pure _

theorem Registry.stepwise_build {lookup : Value → Value → Task σ (Option QueryType)}
    (hlookup : ∀ library type, holds _ (lookup library type)) (pairs : List (Value × Value)) :
    holds _ (Registry.build lookup pairs) :=
  h.bind (stepwise_registerAll h hlog hlookup {} pairs) fun _ => h.bind (hlog _ _ _) fun _ =>
    h.pure _

end Stepwise

namespace Analyzer

theorem stepwise_checkLoops {holds : ∀ α : Type, Task (WalkState ProjectState) α → Prop}
    (h : Task.Stepwise (fun _ => True) holds) {search : LoopSearch ProjectState}
    {unit : TranslationUnit} {loops : List Node}
    (hl : ∀ loop ∈ loops, holds _ (search.checkLoop ⟨unit, loop⟩)) :
    holds _ (checkLoops search unit loops) := by
  induction loops with
  | nil => exact h.pure _
  | cons loop rest ih =>
    refine h.bind (hl loop List.mem_cons_self) fun _ => ?_
    exact ih fun other ho => hl other (List.mem_cons_of_mem loop ho)

section Stepwise

variable {a : Analyzer} {files : FileTree} {holds : ∀ α : Type, Task AnalysisState α → Prop}
  (h : Task.Stepwise (fun _ => True) holds)

include h

theorem stepwise_registry (hlog : ∀ level channel text, holds _ (Log.write level channel text))
    (units : List TranslationUnit) : holds _ (a.registry units) :=
  h.bind (h.of _) fun _ =>
    Registry.stepwise_build h hlog (TypeLookup.stepwise_lookup h hlog units) _

theorem stepwise_parseTargets (hlog : ∀ level channel text, holds _ (Log.write level channel text))
    (hcount : ∀ f, holds _ (count f)) (hunit : ∀ path, holds _ (a.unitOf files path))
    (paths : List String) : holds _ (a.parseTargets files paths) := by
  induction paths with
  | nil => exact h.pure _
  | cons path rest ih =>
    refine h.bind (hunit path) fun outcome => ?_
    cases outcome with
    | error e => exact h.bind (hlog _ _ _) fun _ => h.bind (hcount _) fun _ => ih
    | ok unit => exact h.bind ih fun _ => h.pure _

theorem stepwise_parseOthers (hlog : ∀ level channel text, holds _ (Log.write level channel text))
    (hunit : ∀ path, holds _ (a.unitOf files path)) (paths : List String) :
    holds _ (a.parseOthers files paths) := by
  induction paths with
  | nil => exact h.pure _
  | cons path rest ih =>
    refine h.bind (hunit path) fun outcome => ?_
    cases outcome with
    | error e => exact h.bind (hlog _ _ _) fun _ => ih
    | ok unit => exact h.bind ih fun _ => h.pure _

theorem stepwise_analyzeTarget {search : LoopSearch ProjectState} {path : String}
    {unit : TranslationUnit} (hlog : ∀ level channel text, holds _ (Log.write level channel text))
    (hcount : ∀ f, holds _ (count f)) (hadvance : ∀ loops, holds _ (modify (·.advance path loops)))
    (hcheck : ∀ loops, unit.loops path = .ok loops →
      holds _ (inSearch (checkLoops search unit loops)).attempt) :
    holds _ (analyzeTarget search path unit) := by
  refine h.bind ?_ fun outcome => h.bind (hadvance _) fun _ => h.pure _
  unfold analyzeFile
  cases hl : unit.loops path with
  | error e => exact h.throw e trivial
  | ok loops =>
    rw [Task.ofExcept_ok_bind]
    refine h.bind (hlog _ _ _) fun _ => h.bind (hcheck loops hl) fun outcome => ?_
    cases outcome with
    | error e => exact h.bind (hlog _ _ _) fun _ => h.bind (hcount _) fun _ => h.pure _
    | ok _ => exact h.bind (hcount _) fun _ => h.pure _

/-- The targets of a run are analysed one after the other, or by workers where there are more than
one. -/
theorem stepwise_analyzeTargets {search : LoopSearch ProjectState}
    {units : List (String × TranslationUnit)}
    (hstart : ∀ progress, holds _ (modify fun st => { st with progress }))
    (htarget : ∀ path unit, (path, unit) ∈ units → holds _ (analyzeTarget search path unit))
    (hpool : moreWorkers a.settings.jobs 1 = .ok true → ∀ room turns, holds _
      (Task.pooled room turns (units.map fun (path, unit) => analyzeTarget search path unit))) :
    holds _ (a.analyzeTargets search units) := by
  refine h.bind (hstart _) fun _ => ?_
  rcases hmore : moreWorkers a.settings.jobs 1 with e | _ | _
  · exact h.throw e trivial
  · refine h.inTurn fun job hjob => ?_
    obtain ⟨⟨path, unit⟩, hmem, rfl⟩ := List.mem_map.mp hjob
    exact htarget path unit hmem
  · exact hpool hmore _ _

theorem stepwise_dropMarked (hcount : ∀ f, holds _ (count f))
    (hlines : ∀ path, holds _ (sourceLines files path)) (marker : Value) (reports : List Report) :
    holds _ (dropMarked files marker reports) := by
  induction reports with
  | nil => exact h.pure _
  | cons report rest ih =>
    refine h.bind (hlines _) fun lines => h.bind (h.of _) fun marked => ?_
    split
    next => exact h.bind (hcount _) fun _ => ih
    next => exact h.bind ih fun _ => h.pure _

theorem stepwise_suppress (hcount : ∀ f, holds _ (count f))
    (hlines : ∀ path, holds _ (sourceLines files path)) (reports : List Report) :
    holds _ (a.suppress files reports) := by
  unfold suppress
  split
  next => exact stepwise_dropMarked h hcount hlines _ _
  next => exact h.pure _

end Stepwise

theorem mirrors_checkLoops {rel : ProjectState → ProjectState → Prop}
    {search : LoopSearch ProjectState} (hs : search.Mirrored rel) (unit : TranslationUnit)
    (loops : List Node) :
    Task.Mirrors (WalkState.Alike rel) (checkLoops search unit loops) :=
  stepwise_checkLoops (Task.Mirrors.stepwise _) fun _ _ => hs.checkLoop _

theorem run_inSearch {α : Type} (task : Task (WalkState ProjectState) α) (st : AnalysisState) :
    (inSearch task).run st =
      ((task.run st.search).1, { st with search := (task.run st.search).2 }) :=
  Task.run_within _ _ _ _ _

theorem run_inCache {α : Type} (task : Task UnitCache α) (st : AnalysisState) :
    (inCache task).run st = ((task.run st.search.project.cache).1,
      { st with search.project.cache := (task.run st.search.project.cache).2 }) := by
  rw [inCache, inProject, run_inSearch, Task.run_within, Task.run_within]

/-- Asking for a unit is loading it into the cache, with parse errors caught. -/
theorem run_unitOf (a : Analyzer) (files : FileTree) (path : String) (st : AnalysisState) :
    (a.unitOf files path).run st =
      (Task.caught ((((a.frontEnd files).load path false).run st.search.project.cache).1.map
          LoadedUnit.unit),
        { st with search.project.cache :=
          (((a.frontEnd files).load path false).run st.search.project.cache).2 }) := by
  unfold unitOf
  rw [Task.run_bind_pure, Task.run_catchParse, Task.caught_map, run_inCache]

/-- Between the two states lines were read at most, and what the analysis takes for the lines of a
file has stayed. -/
structure Consults (files : FileTree) (st st' : AnalysisState) : Prop where
  search : st.search.Relogged st'.search
  lines : ∀ path, st'.lines.seen files path = st.lines.seen files path

theorem Consults.trans {files : FileTree} {st st' st'' : AnalysisState} (h : Consults files st st')
    (h' : Consults files st' st'') : Consults files st st'' :=
  ⟨h.search.trans h'.search, fun path => (h'.lines path).trans (h.lines path)⟩

theorem run_sourceLines (files : FileTree) (path : String) (st : AnalysisState) :
    ((sourceLines files path).run st).1 = st.lines.seen files path ∧
      ((sourceLines files path).run st).2.stats = st.stats ∧
      Consults files st ((sourceLines files path).run st).2 := by
  unfold sourceLines
  rw [Task.run_bind_ok (Task.run_get st)]
  cases hkept : st.lines.lookup path with
  | some lines => exact ⟨by simp only [SourceLines.seen, hkept]; rfl, rfl, .refl _, fun _ => rfl⟩
  | none =>
    have hseen : st.lines.seen files path = SourceLines.read files path := by
      simp [SourceLines.seen, hkept]
    rw [hseen]
    unfold SourceLines.read at hseen ⊢
    cases hread : Suppression.readLines files path with
    | ok lines =>
      rw [hread] at hseen
      exact ⟨rfl, rfl, .refl _, SourceLines.seen_cons hseen⟩
    | error e =>
      rw [hread] at hseen
      cases e with
      | path e => exact ⟨rfl, rfl, .append _ _, SourceLines.seen_cons hseen⟩
      | _ => exact ⟨rfl, rfl, .refl _, fun _ => rfl⟩

/-- Whether a report is dropped: its file has its line, and the marker is a text that stands there.
An empty marker drops nothing. -/
def drops (a : Analyzer) (lines : String → Except Failure (List String)) (r : Report) : Bool :=
  match a.settings.suppressionMarker, lines r.location.file with
  | .text marker, .ok found => marker ≠ "" && 1 ≤ r.location.line &&
      found[r.location.line.toNat - 1]?.any fun line => marker.toList <:+: line.toList
  | _, _ => false

theorem isMarked_lineAt {marker : String} (hm : marker ≠ "") (found : List String)
    (number : Int) :
    Suppression.isMarked (.text marker) (Suppression.lineAt found number) =
      .ok (1 ≤ number &&
        found[number.toNat - 1]?.any fun line => marker.toList <:+: line.toList) := by
  have hempty : Text.contains marker.toList [] = false := by
    simpa [Text.contains] using hm
  have hline (line : String) : Text.contains marker.toList line.toList =
      decide (marker.toList <:+: line.toList) := by
    rw [Bool.eq_iff_iff, Text.contains_iff, decide_eq_true_iff]
  unfold Suppression.isMarked Suppression.lineAt
  by_cases hn : number < 1
  · have hle : ¬ 1 ≤ number := by omega
    simp [hn, hle, Value.asText, hempty, bind, Except.bind, pure, Except.pure]
  · have hle : 1 ≤ number := by omega
    cases found[number.toNat - 1]? with
    | none => simp [hn, Value.asText, hempty, bind, Except.bind, pure, Except.pure]
    | some line => simp [hn, hle, Value.asText, hline, bind, Except.bind, pure, Except.pure]

theorem text_of_isMarked {marker : Value} {line : String} {marked : Bool}
    (h : Suppression.isMarked marker line = .ok marked) : ∃ text, marker = .text text := by
  cases marker with
  | text text => exact ⟨text, rfl⟩
  | _ => cases h

/-- What is asked of a line decides whether a report is dropped. -/
theorem drops_eq_of_isMarked {a : Analyzer} {lines : String → Except Failure (List String)}
    {found : List String} {r : Report} {marked : Bool}
    (hm : a.settings.suppressionMarker.isTruthy = true) (hl : lines r.location.file = .ok found)
    (h : Suppression.isMarked a.settings.suppressionMarker
      (Suppression.lineAt found r.location.line) = .ok marked) : a.drops lines r = marked := by
  obtain ⟨marker, hmarker⟩ := text_of_isMarked h
  have hne : marker ≠ "" := by
    simpa [hmarker, Value.isTruthy, Value.unfold] using hm
  rw [hmarker, isMarked_lineAt hne] at h
  simpa [drops, hmarker, hl, hne] using Except.ok.inj h

/-- Reports that are looked up are dropped where they are marked; all others are kept in their
order. -/
theorem run_dropMarked {a : Analyzer} {files : FileTree}
    {lines : String → Except Failure (List String)}
    (hm : a.settings.suppressionMarker.isTruthy = true) {reports kept : List Report}
    {st st' : AnalysisState} (hl : ∀ path, st.lines.seen files path = lines path)
    (h : (dropMarked files a.settings.suppressionMarker reports).run st = (.ok kept, st')) :
    kept = reports.filter (fun r => !a.drops lines r) ∧
      st'.stats = { st.stats with
        suppressed := st.stats.suppressed + reports.countP (a.drops lines) } ∧
      Consults files st st' := by
  induction reports generalizing st kept with
  | nil =>
    cases h
    exact ⟨rfl, rfl, .refl _, fun _ => rfl⟩
  | cons r rest ih =>
    unfold dropMarked at h
    obtain ⟨found, mid, hfound, h⟩ := Task.run_bind_eq_ok h
    obtain ⟨marked, mid', hmarked, h⟩ := Task.run_bind_eq_ok h
    obtain ⟨hisMarked, rfl⟩ := Prod.mk.inj hmarked
    obtain ⟨hseen, hstats, hconsults⟩ := run_sourceLines files r.location.file st
    rw [hfound] at hseen hstats hconsults
    have hdrops := drops_eq_of_isMarked hm ((hl _).symm.trans hseen.symm) hisMarked
    have hl' (path) : mid.lines.seen files path = lines path :=
      (hconsults.lines path).trans (hl path)
    cases marked with
    | true =>
      have hcounted : (count fun n => { n with suppressed := n.suppressed + 1 }).run mid =
          (.ok (), { mid with stats := { mid.stats with
            suppressed := mid.stats.suppressed + 1 } }) := rfl
      rw [if_pos rfl, Task.run_bind_ok hcounted] at h
      obtain ⟨hkept, hstats', hrest⟩ := ih (by exact hl') h
      refine ⟨by simpa [hdrops] using hkept, ?_, hconsults.trans ⟨hrest.search, hrest.lines⟩⟩
      rw [hstats', ← hstats, List.countP_cons_of_pos hdrops]
      simp only [Nat.add_assoc, Nat.add_comm 1]
    | false =>
      rw [if_neg (by simp)] at h
      obtain ⟨others, last, hothers, h⟩ := Task.run_bind_eq_ok h
      cases h
      obtain ⟨hkept, hstats', hrest⟩ := ih hl' hothers
      refine ⟨by simpa [hdrops] using hkept, ?_, hconsults.trans hrest⟩
      rw [hstats', ← hstats, List.countP_cons_of_neg (by simp [hdrops])]

/-- A suppression that ends drops exactly the marked reports and counts them. -/
theorem run_suppress {a : Analyzer} {files : FileTree}
    {lines : String → Except Failure (List String)} {reports kept : List Report}
    {st st' : AnalysisState} (hl : ∀ path, st.lines.seen files path = lines path)
    (h : (a.suppress files reports).run st = (.ok kept, st')) :
    kept = reports.filter (fun r => !a.drops lines r) ∧
      st'.stats = { st.stats with
        suppressed := st.stats.suppressed + reports.countP (a.drops lines) } ∧
      Consults files st st' := by
  unfold suppress at h
  by_cases hm : a.settings.suppressionMarker.isTruthy = true
  · rw [if_pos hm] at h
    exact run_dropMarked hm hl h
  · rw [if_neg hm] at h
    cases h
    have hnone (r : Report) : a.drops lines r = false := by
      unfold drops
      split
      next marker _ hmarker _ =>
        have hempty : marker = "" := by simpa [hmarker, Value.isTruthy, Value.unfold] using hm
        simp [hempty]
      next => rfl
    have hzero : reports.countP (a.drops lines) = 0 := List.countP_eq_zero.mpr (by simp [hnone])
    exact ⟨by simp [hnone], by rw [hzero]; rfl, .refl _, fun _ => rfl⟩

end Analyzer

namespace SampleRun

def place (line : Int) : Option Place :=
  some ⟨"/a.inc", line, 1, line⟩

def record : Node :=
  .mk 1 {
    kind := .structDecl
    spelling := "H"
    place := some ⟨"/h.h", 1, 1, 1⟩
    usr := "c:@S@H"
    type := some 0 } []

def use (id : Nat) (line : Int) : Node :=
  .mk id { kind := .declRef, place := place line, type := some 0 } []

def torn (place : Option Place) : Node :=
  .mk 7 { kind := .other "COMPOUND_STMT", place, failure := some "torn" } []

def loop (id : Nat) (line : Int) (body : Node) : Node :=
  .mk id { kind := .forLoop, place := place line } [body]

def unit (tornAt : Option Place) : TranslationUnit :=
  let loops := [loop 2 1 (use 3 1), loop 4 2 (use 5 2), loop 6 3 (torn tornAt)]
  let tree := Node.mk 0 { kind := .other "TRANSLATION_UNIT" } (record :: loops)
  { nodes := (tree :: record :: loops.flatMap fun loop => loop :: loop.subtrees).toArray
    types := #[{ kind := .other "RECORD", spelling := "H", declaration := some 1 }]
    includes := ["/h.h"] }

/-- One file with three loops. The first two use a type that issues queries, and in the third one
stands a torn node, at a place that is left open. -/
def program (tornAt : Option Place) : Program where
  outcomes := [("/a.inc", [.unit (unit tornAt)])]

def settings : Settings where
  queryTypes := .list [.map [(.text "library", .text "h.h"), (.text "type", .text "H")]]

def analyzer (tornAt : Option Place) : Analyzer :=
  { settings, program := program tornAt, options := {} }

/-- The files of the program; only the text of its source file is left open. -/
def files (text : String) : FileTree where
  entries := [([], .directory), (["a.inc"], .file (.bytes text.toUTF8.toList))]

/-- The second loop is marked. -/
def marked : FileTree := files "first\nsecond queryloop:ignore\nthird\n"

def target : Value := .list [.text "/a.inc"]

end SampleRun

namespace SampleRace

def place (file : String) : Option Place :=
  some ⟨file, 1, 1, 0⟩

def query (body : List Node) : Node :=
  let info : NodeInfo := {
    kind := .functionDecl
    spelling := "query"
    place := place "/p/u.h"
    definition := some 2
    usr := "c:@F@query"
    isDefinition := true }
  .mk 2 info body

def unit (includes : List String) (diagnostics : List Diagnostic) (nodes : List Node) :
    TranslationUnit :=
  let tree := Node.mk 0 { kind := .other "TRANSLATION_UNIT" } (SampleRun.record :: nodes)
  { nodes := (tree :: tree.subtrees).toArray
    types := #[{ kind := .other "RECORD", spelling := "H", declaration := some 1 }]
    includes
    diagnostics }

/-- A file with a loop that calls the function of the header. -/
def source (file : String) : TranslationUnit :=
  let name := Node.mk 5 { kind := .declRef, place := place file, referenced := some 2 } []
  let call := Node.mk 4 { kind := .call, place := place file, referenced := some 2 } [name]
  unit ["/h.h"] [] [query [], .mk 3 { kind := .forLoop, place := place file } [call]]

/-- The header, as the parser gives it with a warning. -/
def header (warning : String) : TranslationUnit :=
  let use := Node.mk 3 { kind := .declRef, place := place "/p/u.h", type := some 0 } []
  unit [] [⟨2, warning⟩] [query [use]]

/-- Two files whose loops call the function of one header, which is given by each parse of it. -/
def program (headers : List TranslationUnit) : Program where
  outcomes := [
    ("/p/a.inc", [.unit (source "/p/a.inc")]),
    ("/p/b.inc", [.unit (source "/p/b.inc")]),
    ("/p/u.h", headers.map .unit)]

def settings : Settings :=
  { SampleRun.settings with jobs := .int 2 }

/-- The first worker stops after so many steps and lets the second one do all its work. -/
def overtaken (steps _jobs : Nat) : List Turn :=
  [.work 0 steps, .work 1 100]

def analyzer (headers : List TranslationUnit) (schedule : Nat → List Turn) : Analyzer :=
  { settings, program := program headers, options := {}, schedule }

def files : FileTree where
  entries := [([], .directory), (["p"], .directory)] ++
    ["a.inc", "b.inc", "u.h"].map fun name => (["p", name], .file (.bytes []))

def targets : Value := .list [.text "/p/a.inc", .text "/p/b.inc"]

end SampleRace

end NPlusOne
