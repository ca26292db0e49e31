import Mathlib.Data.Finset.Card
import Mathlib.Data.Prod.Lex
import Mathlib.Data.String.Basic
import NPlusOne.Proofs.AnalysisChecks

namespace NPlusOne

/-- What positions are ordered by: the file, the line and the column, a missing one being zero. -/
def Location.key (l : Location) : String ×ₗ Int ×ₗ Int :=
  toLex (l.file, toLex (l.line, l.columnKey))

theorem Location.precedes_iff {l m : Location} : l.precedes m = true ↔ l.key ≤ m.key := by
  simp only [precedes, key, Prod.Lex.toLex_le_toLex]
  by_cases hf : l.file = m.file
  · by_cases hl : l.line = m.line
    · simp [hf, hl]
    · simp [hf, hl]
  · simp [hf]

namespace Report

/-- The first list is the second one, ordered by positions; reports at one position keep their
order. -/
structure StablySorted (sorted reports : List Report) : Prop where
  perm : sorted.Perm reports
  ordered : sorted.Pairwise fun r s => r.location.key ≤ s.location.key
  stable : ∀ key, sorted.filter (·.location.key = key) = reports.filter (·.location.key = key)

theorem stablySorted_sort (reports : List Report) : StablySorted (sort reports) reports := by
  have htrans (r s t : Report) (h : r.location.precedes s.location = true)
      (h' : s.location.precedes t.location = true) : r.location.precedes t.location = true := by
    rw [Location.precedes_iff] at h h' ⊢
    exact h.trans h'
  have htotal (r s : Report) :
      (r.location.precedes s.location || s.location.precedes r.location) = true := by
    rw [Bool.or_eq_true, Location.precedes_iff, Location.precedes_iff]
    exact le_total _ _
  have hperm : (sort reports).Perm reports := List.mergeSort_perm reports _
  refine ⟨hperm, ?_, fun key => ?_⟩
  · refine (List.pairwise_mergeSort htrans htotal reports).imp fun h => ?_
    exact Location.precedes_iff.mp h
  · -- The reports at one position are in order, so the sorting keeps them as a sublist.
    have hsame : (reports.filter (·.location.key = key)).Pairwise
        fun r s => r.location.precedes s.location = true := by
      refine List.pairwise_of_forall_mem_list fun r hr s hs => ?_
      have hr' := (List.mem_filter.mp hr).2
      have hs' := (List.mem_filter.mp hs).2
      simp only [decide_eq_true_eq] at hr' hs'
      exact Location.precedes_iff.mpr (hr'.trans hs'.symm).le
    have hsub := (List.sublist_mergeSort htrans htotal hsame List.filter_sublist).filter
      (·.location.key = key)
    rw [List.filter_filter] at hsub
    simp only [Bool.and_self] at hsub
    exact (hsub.eq_of_length (hperm.filter _).length_eq.symm).symm

end Report

theorem toFinset_sortUnique (texts : List String) :
    (sortUnique texts).toFinset = texts.toFinset := by
  ext text
  simp [mem_sortUnique]

namespace Analyzer

variable {a : Analyzer} {files : FileTree}

/-- The targets for which there is no unit. -/
def unparsed (a : Analyzer) (files : FileTree) (c : UnitCache) (paths : List String) :
    Finset String :=
  paths.toFinset.filter fun path => (!(a.frontEnd files).yields c path) = true

namespace Prepared

variable {value : Value} {st mid : AnalysisState} {g : Groundwork} {paths : List String}

theorem card_unparsed (hp : a.Prepared files value st g mid) (ht : g.targets = sortUnique paths) :
    (a.unparsed files st.search.project.cache paths).card = mid.stats.errors := by
  have hn := (nodup_sortUnique paths).filter
    (!(a.frontEnd files).yields st.search.project.cache ·)
  rw [hp.stats, ht, List.countP_eq_length_filter, ← List.toFinset_card_of_nodup hn,
    List.toFinset_filter, toFinset_sortUnique, unparsed]

theorem card_targets (hp : a.Prepared files value st g mid) (ht : g.targets = sortUnique paths) :
    paths.toFinset.card = mid.stats.files + mid.stats.errors := by
  have hunits := congrArg List.length hp.units
  rw [List.length_map, ← List.countP_eq_length_filter] at hunits
  have hsplit := g.targets.length_eq_countP_add_countP
    ((a.frontEnd files).yields st.search.project.cache)
  rw [← toFinset_sortUnique, List.toFinset_card_of_nodup (nodup_sortUnique paths), ← ht, hsplit,
    hp.stats, hunits]
  simp

end Prepared

/-- What a run with its groundwork owes: every report that was emitted is returned or dropped for
the line that it points at, every target and every loop is counted once. `paths` are the targets in
normal form, `outcomes` what the checks of those that parse have come to. -/
structure Accounted (a : Analyzer) (files : FileTree) (st : AnalysisState) (g : Groundwork)
    (paths : List String) (outcomes : List (Except Failure Nat)) (reports : List Report)
    (st' : AnalysisState) : Prop where
  checked : List.Forall₂ (fun target outcome => ∃ loops, target.2.loops target.1 = .ok loops ∧
    ∀ n, outcome = .ok n → n = loops.length) g.units outcomes
  returned : Report.StablySorted reports
    (st'.search.reports.filter fun r => !a.drops (st.lines.seen files) r)
  reports : st'.stats.reports = reports.length
  suppressed : st'.stats.reports + st'.stats.suppressed = st'.search.reports.length
  parsed : st'.stats.files + (a.unparsed files st.search.project.cache paths).card =
    paths.toFinset.card
  errors : st'.stats.errors =
    (a.unparsed files st.search.project.cache paths).card + failuresIn outcomes
  loops : st'.stats.loops = loopsIn outcomes

/-- Every run that finds a type which issues queries and comes to its end accounts for its reports,
its targets and its loops, however many workers there are and whatever turns they take. With one
worker the targets are checked in their order. -/
theorem run_accounted {value : Value} {st mid st' : AnalysisState} {g : Groundwork}
    {reports : List Report} (hg : (a.prepare files value).run st = (.ok g, mid))
    (hr : g.registry.isEmpty = false) (h : (a.run files value).run st = (.ok reports, st')) :
    ∃ paths roots outcomes after, a.givenTargets files value = .ok paths ∧
      a.settings.projectRoots files = .ok roots ∧ mid.search.reports = [] ∧
      (a.analyzeTargets (a.searchOf files g roots) g.units).run mid = (.ok outcomes, after) ∧
      st'.search.reports = after.search.reports ∧
      (moreWorkers a.settings.jobs 1 = .ok false →
        let c := checkFiles (a.searchOf files g roots) mid.search g.units
        c.results = .ok outcomes ∧ c.search.reports = after.search.reports) ∧
      a.Accounted files st g paths outcomes reports st' := by
  have hp := prepared_of_run hg
  obtain ⟨paths, hpaths, htargets⟩ := hp.targets
  rw [run_eq_searchTargets hg hr, searchTargets_eq] at h
  obtain ⟨roots, hroots, h⟩ := Task.ofExcept_bind_eq_ok h
  obtain ⟨outcomes, after, hanalyze, h⟩ := Task.run_bind_eq_ok h
  obtain ⟨more, hmore⟩ := workers_of_analyzeTargets hanalyze
  have ht : Tallied g.units mid outcomes after := by
    rcases analyzeTargets_cases hmore (a.searchOf files g roots) g.units mid with
      ⟨_, _, hrun, ht⟩ | ⟨_, _, _, _, _, _, _, _, hrun, _⟩
    · cases hanalyze.symm.trans hrun
      exact ht
    · cases hanalyze.symm.trans hrun
  have hlines : after.lines = st.lines := ht.untouched.lines.trans hp.lines
  obtain ⟨hreports, hsearch, hstats⟩ := concluded_of_run h
  rw [hlines] at hreports hstats
  have hsorted := Report.stablySorted_sort
    (after.search.reports.filter fun r => !a.drops (st.lines.seen files) r)
  refine ⟨paths, roots, outcomes, after, hpaths, hroots, by rw [hp.search], hanalyze,
    hsearch.reports.symm, fun hone => ?_, ?_⟩
  · have halone := run_analyzeTargets_alone hone (mirrored_searchOf a files g roots) g.units mid
    rw [hanalyze] at halone
    exact ⟨halone.1.symm, halone.2.reports⟩
  constructor
  case checked => exact ht.fits
  case returned =>
    rw [← hsearch.reports, hreports]
    exact hsorted
  case reports => rw [hstats, hreports, hsorted.perm.length_eq]
  case suppressed =>
    have hsplit := after.search.reports.length_eq_countP_add_countP (a.drops (st.lines.seen files))
    simp only [hstats, ← hsearch.reports, hsplit, ht.untouched.suppressed, hp.stats,
      ← List.countP_eq_length_filter]
    simp [Nat.add_comm]
  case parsed =>
    rw [hstats, ht.untouched.files, hp.card_unparsed htargets, hp.card_targets htargets]
  case errors => rw [hstats, ht.errors, hp.card_unparsed htargets]
  case loops =>
    rw [hstats, ht.loops, hp.stats]
    exact Nat.zero_add _

end Analyzer

namespace SampleRun

open Analyzer

/-- Of the two uses one is returned and one dropped, and the failure in the third loop leaves no
loop counted. Of two loops that are checked at the same time only one is reported, but both are
counted. -/
theorem marked_accounted :
    (∃ g mid reports st' paths outcomes,
      ((analyzer none).prepare marked target).run {} = (.ok g, mid) ∧ g.registry.isEmpty = false ∧
      ((analyzer none).run marked target).run {} = (.ok reports, st') ∧
      st'.stats = { files := 1, reports := 1, suppressed := 1, errors := 1 } ∧
      (analyzer none).Accounted marked {} g paths outcomes reports st') ∧
    let race := SampleRace.analyzer [SampleRace.header ""] (SampleRace.overtaken 12)
    ∃ g mid reports st' paths outcomes,
      (race.prepare SampleRace.files SampleRace.targets).run {} = (.ok g, mid) ∧
      g.registry.isEmpty = false ∧
      (race.run SampleRace.files SampleRace.targets).run {} = (.ok reports, st') ∧
      st'.stats = { files := 2, loops := 2, reports := 1 } ∧
      race.Accounted SampleRace.files {} g paths outcomes reports st' := by
  have haccounts {a : Analyzer} {files : FileTree} {value : Value} {stats : Stats}
      (hprepared : ((a.prepare files value).run {}).1.toOption.any (!·.registry.isEmpty) = true)
      (hreturns : ((a.run files value).run {}).1.toOption.isSome = true ∧
        ((a.run files value).run {}).2.stats = stats) :
      ∃ g mid reports st' paths outcomes, (a.prepare files value).run {} = (.ok g, mid) ∧
        g.registry.isEmpty = false ∧ (a.run files value).run {} = (.ok reports, st') ∧
        st'.stats = stats ∧ a.Accounted files {} g paths outcomes reports st' := by
    obtain ⟨g, mid, hg, hr⟩ := prepare_of_any a files value {} hprepared
    rcases hrun : (a.run files value).run {} with ⟨e | reports, st'⟩
    · simp [hrun, Except.toOption] at hreturns
    obtain ⟨paths, _, outcomes, _, _, _, _, _, _, _, haccounted⟩ := run_accounted hg hr hrun
    exact ⟨g, mid, reports, st', paths, outcomes, hg, hr, rfl, by rw [← hreturns.2, hrun],
      haccounted⟩
  refine ⟨haccounts (by decide +kernel) (by decide +kernel), haccounts ?_ ?_⟩
  · unfold prepare projectFiles
    simp only [sortUnique_eq_insertionSort]
    decide +kernel
  · unfold run projectFiles searchTargets
    simp only [sortUnique_eq_insertionSort]
    decide +kernel

/-- A line that was marked when it was read drops a report even when the mark is gone since. -/
theorem stale_mark_drops :
    let unmarked := files "first\nsecond\nthird\n"
    let st := (((analyzer none).run marked target).run {}).2
    let second : Report := ⟨⟨"/a.inc", 2, some 1⟩, Report.queryInLoop⟩
    second ∈ (((analyzer none).run unmarked target).run st).2.search.reports ∧
      (analyzer none).drops (SourceLines.read unmarked) second = false ∧
      (((analyzer none).run unmarked target).run st).1.toOption.any (second ∉ ·) = true ∧
      (((analyzer none).run unmarked target).run st).2.stats.suppressed = 1 := by
  decide +kernel

end SampleRun

end NPlusOne
