import NPlusOne.Command
import NPlusOne.Proofs.AnalysisParts

namespace NPlusOne

namespace Settings

variable {σ : Type} [HasLog σ] {inv : σ → Prop}
  (hlog : ∀ level channel text, Task.Keeps inv (Log.write level channel text))

include hlog

theorem keeps_setAll (s : Settings) (entries : List (Value × Value)) :
    Task.Keeps inv (s.setAll entries) := by
  induction entries generalizing s with
  | nil => exact .pure _
  | cons entry rest ih =>
    refine .bind (.ofExcept _) fun name => .bind (.ofExcept _) fun changed => ?_
    cases changed with
    | some s => exact ih s
    | none => exact (hlog _ _ _).bind fun _ => ih s

theorem keeps_load (files : FileTree) (path : String) (level : Option String) :
    Task.Keeps inv (Settings.load files path level) := by
  refine .bind (.ofExcept _) fun document => .bind ?_ fun s => (hlog _ _ _).bind fun _ => .pure _
  unfold ofValue
  split
  next => exact keeps_setAll hlog _ _
  next => exact .throw _

theorem keeps_warnIncludes (files : FileTree) (paths : List Value) :
    Task.Keeps inv (warnIncludes files paths) := by
  induction paths with
  | nil => exact .pure _
  | cons path rest ih =>
    refine .bind (.ofExcept _) fun text => .bind (.ofExcept _) fun present => ?_
    split
    next => exact (hlog _ _ _).bind fun _ => ih
    next => exact ih

theorem keeps_validate (s : Settings) (files : FileTree) : Task.Keeps inv (s.validate files) :=
  .bind (.ofExcept _) fun _ => .bind (.ofExcept _) fun _ =>
    (keeps_warnIncludes hlog files _).bind fun _ => .bind (.ofExcept _) fun _ =>
      .bind (.ofExcept _) fun _ => .pure _

theorem keeps_allSourceFiles (s : Settings) (files : FileTree) :
    Task.Keeps inv (s.allSourceFiles files) :=
  .bind (.ofExcept _) fun _ => (hlog _ _ _).bind fun _ => .pure _

end Settings

namespace Command

/-- What the analysis of a request gives. -/
def analyzed (around : Surroundings) (s : Settings) (targets : Value) (sess : Session) :
    Except Failure (List Report) :=
  ((inAnalysis do (← Analyzer.start s around.program).run sess.files targets).run sess).1

/-- The reports that a command has found, where its analysis comes to an end. -/
def found (around : Surroundings) (line : CommandLine) (sess : Session) : Option (List Report) :=
  match (plan around line).run sess with
  | (.ok (some (s, targets)), mid) => (analyzed around s targets mid).toOption
  | _ => none

section

variable (lines : List String)

theorem printed_write (level : Log.Level) (channel : Log.Channel) (text : String) :
    Task.Keeps (fun sess : Session => sess.output = lines) (Log.write level channel text) :=
  .modify fun _ h => h

theorem printed_inWorkspace {α : Type} (task : Task Workspace α) :
    Task.Keeps (fun sess : Session => sess.output = lines) (inWorkspace task) :=
  .within fun _ h => h

theorem printed_openLog (level file : Value) :
    Task.Keeps (fun sess : Session => sess.output = lines) (openLog level file) :=
  (printed_inWorkspace lines _).bind fun _ => .modify fun _ h => h

theorem printed_complain (text : String) :
    Task.Keeps (fun sess : Session => sess.output = lines) (complain text) :=
  .modify fun _ h => h

theorem printed_readSettings (around : Surroundings) (line : CommandLine) :
    Task.Keeps (fun sess : Session => sess.output = lines) (readSettings around line) := by
  unfold readSettings
  cases given line.config with
  | none => exact .pure _
  | some path =>
    refine .bind .get fun now => .bind (.ofExcept _) fun present => ?_
    split
    next => exact (printed_complain lines _).bind fun _ => .pure _
    next => exact (Settings.keeps_load (printed_write lines) _ _ _).bind fun _ => .pure _

theorem printed_request (line : CommandLine) (s : Settings) :
    Task.Keeps (fun sess : Session => sess.output = lines) (request line s) := by
  have hlog := printed_write lines
  refine .bind (.ofExcept _) fun s => (printed_openLog lines _ _).bind fun _ =>
    .bind .get fun now => (Settings.keeps_validate hlog _ _).bind fun _ =>
    .bind (.ofExcept _) fun _ => ?_
  dsimp only
  split
  next =>
    refine .bind (.forIn fun problem _ => ?_) fun _ => .pure _
    exact (hlog _ _ _).bind fun _ => .pure _
  next =>
    split
    next =>
      refine (Settings.keeps_allSourceFiles hlog _ _).bind fun _ => ?_
      split
      next => exact (hlog _ _ _).bind fun _ => .pure _
      next => exact .pure _
    next => exact .pure _

/-- Before the analysis nothing is printed. -/
theorem printed_plan (around : Surroundings) (line : CommandLine) :
    Task.Keeps (fun sess : Session => sess.output = lines) (plan around line) := by
  refine (printed_readSettings lines around line).bind fun found => ?_
  cases found with
  | none => exact .pure _
  | some s => exact printed_request lines line s

end

theorem run_analyze_ok {around : Surroundings} {s : Settings} {targets : Value} {sess : Session}
    {reports : List Report} (h : analyzed around s targets sess = .ok reports) :
    ∃ mid, (analyze around s targets).run sess = (.ok (some reports), mid) ∧
      mid.output = sess.output := by
  unfold analyze
  rw [Task.run_bind_ok (Task.run_get sess)]
  dsimp only
  rw [Task.run_bind_ok (Task.run_attempt _ sess), ← analyzed, h]
  exact ⟨_, rfl, rfl⟩

theorem run_analyze_error {around : Surroundings} {s : Settings} {targets : Value} {sess : Session}
    {e : Failure} (h : analyzed around s targets sess = .error e) :
    ∃ mid, (analyze around s targets).run sess = (.ok none, mid) ∧ mid.output = sess.output := by
  unfold analyze
  rw [Task.run_bind_ok (Task.run_get sess)]
  dsimp only
  rw [Task.run_bind_ok (Task.run_attempt _ sess), ← analyzed, h]
  exact ⟨_, rfl, rfl⟩

theorem analyzed_of_run {around : Surroundings} {s : Settings} {targets : Value}
    {sess mid : Session} {reports : List Report}
    (h : (analyze around s targets).run sess = (.ok (some reports), mid)) :
    analyzed around s targets sess = .ok reports := by
  cases ha : analyzed around s targets sess with
  | error e =>
    obtain ⟨_, hrun, _⟩ := run_analyze_error ha
    cases hrun.symm.trans h
  | ok found =>
    obtain ⟨_, hrun, _⟩ := run_analyze_ok ha
    cases hrun.symm.trans h
    rfl

theorem truthy_of_exportBook {around : Surroundings} {s : Settings} {reports : List Report}
    {sess : Session} {e : Failure} (h : ((exportBook around s reports).run sess).1 = .error e) :
    s.excelOutput.isTruthy = true := by
  cases hasked : s.excelOutput.isTruthy with
  | true => rfl
  | false =>
    unfold exportBook at h
    rw [hasked] at h
    cases h

theorem map_eq_error_iff {α β : Type} {f : α → β} {r : Except Failure α} {e : Failure} :
    r.map f = .error e ↔ r = .error e := by
  cases r <;> simp [Except.map]

theorem run_printAll (reports : List Report) (sess : Session) :
    (forIn reports PUnit.unit fun report _ => do
        print report.text
        pure (ForInStep.yield PUnit.unit) : Task Session PUnit).run sess =
      (.ok ⟨⟩, { sess with output := sess.output ++ reports.map Report.text }) := by
  induction reports generalizing sess with
  | nil =>
    simp only [List.map_nil, List.append_nil]
    rfl
  | cons report rest ih =>
    have hfirst : (do
          print report.text
          pure (ForInStep.yield PUnit.unit) : Task Session (ForInStep PUnit)).run sess =
        (.ok (.yield ⟨⟩), { sess with output := sess.output ++ [report.text] }) := rfl
    rw [List.forIn_cons, Task.run_bind_ok hfirst]
    refine (ih _).trans ?_
    simp

theorem run_deliver (around : Surroundings) (s : Settings) (reports : List Report)
    (sess : Session) :
    let exported := (exportBook around s reports).run
      { sess with output := sess.output ++ reports.map Report.text }
    (deliver around s reports).run sess =
        (exported.1.map fun _ => if reports.isEmpty then 0 else 1, exported.2) ∧
      exported.2.output = sess.output ++ reports.map Report.text := by
  intro exported
  have hkeeps : Task.Keeps (fun now : Session =>
      now.output = sess.output ++ reports.map Report.text) (exportBook around s reports) := by
    unfold exportBook
    split
    next => exact .bind (.ofExcept _) fun _ => printed_inWorkspace _ _
    next => exact .pure _
  refine ⟨?_, hkeeps _ rfl⟩
  unfold deliver
  rw [Task.run_bind_ok (run_printAll reports sess), Task.run_bind_pure]

/-- How a command ends that is to analyse. What is printed are the reports of its analysis and
nothing else, and where it returns its code tells about them. But a failure before the analysis or
in the export of the workbook comes out of it. -/
structure Ends (around : Surroundings) (line : CommandLine) (sess : Session)
    (r : Except Failure Nat × Session) : Prop where
  printed : r.2.output = sess.output ++ ((found around line sess).getD []).map Report.text
  code : ∀ code, r.1 = .ok code →
    (code = 1 ↔ ∃ reports, found around line sess = some reports ∧ reports ≠ []) ∧
      (code = 0 ↔ found around line sess = some []) ∧ (code = 2 ↔ found around line sess = none)
  escapes : ∀ e, r.1 = .error e ↔ ((plan around line).run sess).1 = .error e ∨
    ∃ s targets mid reports now, (plan around line).run sess = (.ok (some (s, targets)), mid) ∧
      (analyze around s targets).run mid = (.ok (some reports), now) ∧
      s.excelOutput.isTruthy = true ∧
      ((exportBook around s reports).run
        { now with output := now.output ++ reports.map Report.text }).1 = .error e

section

variable {around : Surroundings} {line : CommandLine} {sess mid : Session} {s : Settings}
  {targets : Value}

theorem found_of_plan (h : (plan around line).run sess = (.ok (some (s, targets)), mid)) :
    found around line sess = (analyzed around s targets mid).toOption := by
  unfold found
  rw [h]

theorem ends_of_unplanned {e : Failure} (h : (plan around line).run sess = (.error e, mid)) :
    Ends around line sess (.error e, mid) := by
  have hfound : found around line sess = none := by
    unfold found
    rw [h]
  have hmid := (printed_plan sess.output around line).of_run h rfl
  constructor
  case printed => simp [hfound, hmid]
  case code => exact fun _ hok => nomatch hok
  case escapes =>
    intro e'
    rw [h]
    constructor
    · intro he
      cases he
      exact .inl rfl
    · rintro (he | ⟨_, _, _, _, _, hplan, _⟩)
      · cases he
        rfl
      · cases hplan

theorem ends_of_told {request : Option (Settings × Value)} {now : Session}
    (h : (plan around line).run sess = (.ok request, mid))
    (hfound : found around line sess = none) (hnow : now.output = mid.output) :
    Ends around line sess (.ok 2, now) := by
  have hmid := (printed_plan sess.output around line).of_run h rfl
  constructor
  case printed => simp [hfound, hnow, hmid]
  case code =>
    intro code hcode
    cases hcode
    simp [hfound]
  case escapes =>
    refine fun e => ⟨(fun he => nomatch he), ?_⟩
    rintro (he | ⟨s, targets, mid', reports, _, hplan, hrun, _⟩)
    · rw [h] at he
      cases he
    · rw [found_of_plan hplan, analyzed_of_run hrun] at hfound
      cases hfound

/-- After an analysis that gives reports, delivering them ends the command as it should end. -/
theorem ends_of_analyzed {reports : List Report} {now : Session}
    (h : (plan around line).run sess = (.ok (some (s, targets)), mid))
    (hrun : (analyze around s targets).run mid = (.ok (some reports), now))
    (hnow : now.output = mid.output) :
    Ends around line sess ((deliver around s reports).run now) := by
  have hfound : found around line sess = some reports := by
    rw [found_of_plan h, analyzed_of_run hrun]
    rfl
  have hmid := (printed_plan sess.output around line).of_run h rfl
  obtain ⟨hdeliver, hprinted⟩ := run_deliver around s reports now
  rw [hdeliver]
  constructor
  case printed =>
    refine hprinted.trans ?_
    simp [hnow, hmid, hfound]
  case code =>
    intro code hcode
    cases hbook : ((exportBook around s reports).run
        { now with output := now.output ++ reports.map Report.text }).1 with
    | error e =>
      rw [hbook] at hcode
      cases hcode
    | ok =>
      rw [hbook] at hcode
      cases hcode
      cases reports <;> simp [hfound]
  case escapes =>
    refine fun e => map_eq_error_iff.trans ⟨fun he => .inr ?_, ?_⟩
    · exact ⟨s, targets, mid, reports, now, h, hrun, truthy_of_exportBook he, he⟩
    · rintro (he | ⟨_, _, _, _, _, hplan, hrun', _, he⟩)
      · rw [h] at he
        cases he
      · cases h.symm.trans hplan
        cases hrun.symm.trans hrun'
        exact he

end

/-- Unless it is to write initial settings, a command ends as one that is to analyse. -/
theorem carryOut_ends (around : Surroundings) {line : CommandLine} (sess : Session)
    (h : given line.initConfig = none) :
    Ends around line sess ((carryOut around line).run sess) := by
  unfold carryOut
  rw [h]
  dsimp only
  rcases hrun : (plan around line).run sess with ⟨e | request, mid⟩
  · rw [Task.run_bind_error hrun]
    exact ends_of_unplanned hrun
  · rw [Task.run_bind_ok hrun]
    cases request with
    | none =>
      refine ends_of_told hrun ?_ rfl
      unfold found
      rw [hrun]
    | some request =>
      obtain ⟨s, targets⟩ := request
      unfold finish
      cases ha : analyzed around s targets mid with
      | error e =>
        obtain ⟨now, hnow, houtput⟩ := run_analyze_error ha
        rw [Task.run_bind_ok hnow]
        refine ends_of_told hrun ?_ houtput
        rw [found_of_plan hrun, ha]
        rfl
      | ok reports =>
        obtain ⟨now, hnow, houtput⟩ := run_analyze_ok ha
        rw [Task.run_bind_ok hnow]
        exact ends_of_analyzed hrun hnow houtput

/-- A command that writes settings returns zero, or two without a word on standard output. -/
theorem initConfig_ends (lines : List String) (input directory output : String)
    (verbose : Bool) :
    Task.Ensures (fun sess : Session => sess.output = lines)
      (initConfig input directory output verbose)
      fun code sess => code = 0 ∨ code = 2 ∧ sess.output = lines := by
  refine .keeping (printed_openLog lines _ _) fun _ => ?_
  refine .keeping .get fun now => .keeping (.ofExcept _) fun isDirectory => ?_
  split
  next =>
    exact .keeping (printed_complain lines _) fun _ => .pure fun _ hsess => .inr ⟨rfl, hsess⟩
  next =>
    -- Past the check of the directory there is one code to return.
    refine .after fun s => .after fun _ => .after fun _ => .after fun _ => .after fun _ => ?_
    refine .after fun _ => .after fun _ => .after fun _ => .after fun _ => .after fun _ => ?_
    exact .pure fun _ _ => .inl rfl

/-- A settings file that is there but cannot be loaded leaves a command without a plan. -/
theorem plan_eq_error {around : Surroundings} {line : CommandLine} {sess : Session}
    {path : String} {e : Failure} (hpath : given line.config = some path)
    (hfile : sess.files.isPresent (Path.tidy path) = .ok true)
    (h : ((Settings.load sess.files path around.level : Task Session Settings).run sess).1 =
      .error e) : ∃ mid, (plan around line).run sess = (.error e, mid) := by
  rcases hload : (Settings.load sess.files path around.level : Task Session Settings).run sess with
    ⟨e' | s, mid⟩
  · rw [hload] at h
    cases h
    have hread : (readSettings around line).run sess = (.error e, mid) := by
      unfold readSettings
      rw [hpath]
      dsimp only
      rw [Task.run_bind_ok (Task.run_get sess), hfile, Task.ofExcept_ok_bind]
      exact Task.run_bind_error hload
    exact ⟨mid, Task.run_bind_error hread⟩
  · rw [hload] at h
    cases h

theorem parse_of_any (arguments : List String)
    (h : (CommandLine.parse arguments).toOption.any (given ·.initConfig |>.isNone) = true) :
    ∃ line, CommandLine.parse arguments = .ok line ∧ given line.initConfig = none := by
  cases hparse : CommandLine.parse arguments with
  | error stop => simp [hparse, Except.toOption] at h
  | ok line => exact ⟨line, rfl, by simpa [hparse, Except.toOption] using h⟩

/-- A command line that is understood ends with a code that tells what was found, unless a failure
comes out of the reading and checking of the settings or out of the export. In particular a
settings file that cannot be loaded gives no code. -/
theorem run_ends {arguments : List String} {line : CommandLine}
    (hparse : CommandLine.parse arguments = .ok line) (around : Surroundings) (sess : Session) :
    ∃ r, (run around arguments).run sess = (r.1.map Ending.done, r.2) ∧
      (given line.initConfig = none → Ends around line sess r ∧
        ∀ path e, given line.config = some path →
          sess.files.isPresent (Path.tidy path) = .ok true →
          ((Settings.load sess.files path around.level : Task Session Settings).run sess).1 =
            .error e → r.1 = .error e ∧ r.2.output = sess.output) ∧
      ∀ directory, given line.initConfig = some directory → ∀ code, r.1 = .ok code →
        code = 0 ∨ code = 2 ∧ r.2.output = sess.output := by
  refine ⟨(carryOut around line).run sess, ?_, fun hnone => ?_,
    fun directory hsome code hcode => ?_⟩
  · unfold run
    rw [hparse]
    exact Task.run_bind_pure _ _ _
  · have hends := carryOut_ends around sess hnone
    refine ⟨hends, fun path e hpath hfile hload => ?_⟩
    obtain ⟨mid, hplan⟩ := plan_eq_error hpath hfile hload
    have hfound : found around line sess = none := by
      unfold found
      rw [hplan]
    refine ⟨(hends.escapes e).2 (.inl (congrArg Prod.fst hplan)), ?_⟩
    rw [hends.printed, hfound]
    simp
  · unfold carryOut at hcode ⊢
    rw [hsome] at hcode ⊢
    dsimp only at hcode ⊢
    exact initConfig_ends sess.output _ _ _ _ sess rfl code hcode

end Command

namespace SampleRun

open Command

def around : Surroundings where
  program := program none
  now := ⟨2024, 1, 2, none⟩

/-- Two settings files, of which the second one is no map. -/
def session : Session where
  files.entries := marked.entries ++
    [(["fit.yaml"], .file (.bytes "query_types:\n- library: h.h\n  type: H\n".toUTF8.toList)),
      (["unfit.yaml"], .file (.bytes "- x\n".toUTF8.toList))]

/-- With the one file the report is printed and told by the code, with the other one a failure comes
out. -/
theorem fit_reported_unfit_escapes :
    (∃ line r, CommandLine.parse ["-c", "fit.yaml", "a.inc"] = .ok line ∧
      given line.initConfig = none ∧ Ends around line session r ∧
      (run around ["-c", "fit.yaml", "a.inc"]).run session = (r.1.map Ending.done, r.2) ∧
      ((run around ["-c", "fit.yaml", "a.inc"]).run session).1 = .ok (.done 1) ∧
      ((run around ["-c", "fit.yaml", "a.inc"]).run session).2.output =
        ["/a.inc:1:1: this query is called in a loop"]) ∧
    ∃ line r, CommandLine.parse ["-c", "unfit.yaml"] = .ok line ∧
      given line.initConfig = none ∧ Ends around line session r ∧
      (run around ["-c", "unfit.yaml"]).run session = (r.1.map Ending.done, r.2) ∧
      ((run around ["-c", "unfit.yaml"]).run session).1 = .error .noMember := by
  constructor
  · obtain ⟨line, hparse, hinit⟩ := parse_of_any ["-c", "fit.yaml", "a.inc"] (by decide +kernel)
    obtain ⟨r, hrun, hends, _⟩ := run_ends hparse around session
    exact ⟨line, r, hparse, hinit, (hends hinit).1, hrun, by decide +kernel⟩
  · obtain ⟨line, hparse, hinit⟩ := parse_of_any ["-c", "unfit.yaml"] (by decide +kernel)
    obtain ⟨r, hrun, hends, _⟩ := run_ends hparse around session
    exact ⟨line, r, hparse, hinit, (hends hinit).1, hrun, by decide +kernel⟩

end SampleRun

end NPlusOne
