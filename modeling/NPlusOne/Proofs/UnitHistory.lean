import NPlusOne.Proofs.UnitLoading

namespace NPlusOne

/-- Options of the kinds that a front end is made for. -/
def CompilerOptions.ofTexts (includePaths arguments : List String) (standard : String) :
    CompilerOptions where
  includePaths := .list (includePaths.map .text)
  arguments := .list (arguments.map .text)
  standard := .text standard

theorem CompilerOptions.argumentsFor_ofTexts (includePaths arguments : List String)
    (standard path : String) :
    ∃ all, (ofTexts includePaths arguments standard).argumentsFor path = .ok all := by
  have hstandard : (Value.text standard).shown = .ok (Value.text standard).display := by
    simp [Value.shown, Value.hasLongNumber]
  have hparts (texts : List String) :
      (Value.list (texts.map .text)).parts = .ok (texts.map .text) := rfl
  simp [argumentsFor, ofTexts, hstandard, hparts, bind, Except.bind, pure, Except.pure]

/-- What is asked of a front end that keeps units, or happens to its files from outside. -/
inductive UnitRequest where
  | get (path : String) (force : Bool)
  | text (source name : String)
  | change (files : FileTree)

/-- A front end whose files may change, and what it keeps. -/
structure UnitSession where
  frontEnd : FrontEnd
  cache : UnitCache := {}

/-- What one request came to. -/
structure UnitTurn where
  /-- The absolute path of the file whose unit was asked for. -/
  path : Option String
  calls : List ParserCall
  /-- What the parser makes of the file if it is called for it. -/
  outcome : Option ParseOutcome
  /-- The number of the next unit. -/
  serial : Nat
  result : Except Failure (Option LoadedUnit)

namespace UnitTurn

/-- The unit that the parser made of the file in this turn. -/
def parsed? (turn : UnitTurn) (path : String) : Option LoadedUnit :=
  if turn.path = some path ∧ turn.calls ≠ [] then
    match turn.outcome with
    | some (.unit unit) => some ⟨turn.serial, unit⟩
    | _ => none
  else none

/-- The unit of the last successful parse of the file. -/
def lastParsed (past : List UnitTurn) (path : String) : Option LoadedUnit :=
  past.reverse.findSome? (·.parsed? path)

theorem lastParsed_cons (turn : UnitTurn) (past : List UnitTurn) (path : String) :
    lastParsed (turn :: past) path = (lastParsed past path).or (turn.parsed? path) := by
  simp [lastParsed, List.findSome?_append]

end UnitTurn

namespace UnitSession

variable {s : UnitSession} {path : String}

/-- A new front end keeps nothing. -/
def start (program : Program) (files : FileTree) (includePaths arguments : List String)
    (standard : String) : UnitSession where
  frontEnd := { program, files, options := .ofTexts includePaths arguments standard }

/-- The answer to a request and the session after it; a change of files is answered by nothing. -/
def serve (s : UnitSession) : UnitRequest → Except Failure (Option LoadedUnit) × UnitSession
  | .get path force =>
    let outcome := (s.frontEnd.load path force).run s.cache
    (outcome.1.map some, { s with cache := outcome.2 })
  | .text source name =>
    let outcome := (s.frontEnd.parseText source name).run s.cache
    (outcome.1, { s with cache := outcome.2 })
  | .change files => (.ok none, { s with frontEnd := { s.frontEnd with files } })

def file? (s : UnitSession) : UnitRequest → Option String
  | .get path _ => some (s.frontEnd.files.absolute path)
  | _ => none

/-- What the parser makes of a file when it is called for it next. -/
def outcome (s : UnitSession) (path : String) : ParseOutcome :=
  s.frontEnd.program.parse path (s.cache.attempts path)

def turn (s : UnitSession) (request : UnitRequest) : UnitTurn where
  path := s.file? request
  calls := (s.serve request).2.cache.calls.drop s.cache.calls.length
  outcome := (s.file? request).map s.outcome
  serial := s.cache.built + 1
  result := (s.serve request).1

def after (s : UnitSession) (requests : List UnitRequest) : UnitSession :=
  requests.foldl (fun s request => (s.serve request).2) s

def turns : UnitSession → List UnitRequest → List UnitTurn
  | _, [] => []
  | s, request :: rest => s.turn request :: turns (s.serve request).2 rest

theorem serve_kept {loaded : LoadedUnit}
    (h : s.cache.find? (s.frontEnd.files.absolute path) = some loaded) :
    s.serve (.get path false) = (.ok (some loaded), s) := by
  simp only [serve, FrontEnd.run_load_kept h]
  rfl

/-- A request that no kept unit answers is a parse of the file. -/
theorem reads_serve {force : Bool}
    (h : force = true ∨ s.cache.find? (s.frontEnd.files.absolute path) = none) :
    ∃ r, s.frontEnd.Reads (s.frontEnd.files.absolute path) s.cache r
        (s.serve (.get path force)).2.cache ∧ (s.serve (.get path force)).1 = r.map some := by
  have hload : (s.frontEnd.load path force).run s.cache =
      (s.frontEnd.parseFile (s.frontEnd.files.absolute path)).run s.cache := by
    rcases h with rfl | hnone
    · exact s.frontEnd.run_load_forced path s.cache
    · cases force with
      | true => exact s.frontEnd.run_load_forced path s.cache
      | false => exact FrontEnd.run_load_fresh hnone
  refine ⟨((s.frontEnd.load path force).run s.cache).1, ?_, rfl⟩
  simp only [serve, hload]
  exact FrontEnd.reads_parseFile _ _ _

theorem units_serve_text (s : UnitSession) (source name : String) :
    (s.serve (.text source name)).2.cache.units = s.cache.units := by
  have hkeeps : Task.Keeps (fun c : UnitCache => c.units = s.cache.units)
      (s.frontEnd.parseText source name) := by
    refine .bind (.ofExcept _) fun arguments => .bind (fun c hc => hc) fun outcome => ?_
    cases outcome with
    | rejected => exact .throw _
    | nothing => exact .pure _
    | unit unit => exact .bind (fun c hc => hc) fun _ => .pure _
  exact hkeeps s.cache rfl

end UnitSession

namespace FrontEnd

namespace Reads

variable {f : FrontEnd} {path : String} {c c' : UnitCache} {r : Except Failure LoadedUnit}

theorem calls_eq (h : f.Reads path c r c') {arguments : List Value}
    (ha : f.options.argumentsFor path = .ok arguments) :
    c'.calls = c.calls ++
      if f.files.contains path then [{ path := path, arguments := arguments }] else [] := by
  cases h with
  | missing hcontains => simp [hcontains]
  | unfit _ harguments => cases ha.symm.trans harguments
  | rejected hcontains harguments | nothing hcontains harguments | parsed hcontains harguments =>
    cases ha.symm.trans harguments
    simp [hcontains, parsedCache, HasLog.append, UnitCache.put]

/-- A parse that fails leaves all kept units, one that succeeds replaces that of its file. -/
theorem find?_eq (h : f.Reads path c r c') (other : String) :
    c'.find? other = (if path = other then r.toOption else none).or (c.find? other) := by
  cases h with
  | missing | unfit | rejected | nothing => simp [Except.toOption, UnitCache.find?]
  | parsed =>
    rw [find?_parsedCache]
    split <;> simp [Except.toOption]

end Reads

end FrontEnd

namespace UnitSession

variable {s : UnitSession} {path : String}

/-- Why there is no unit of a file: it does not exist, or the parser rejects it, or it makes nothing
of it. -/
inductive Lacks (s : UnitSession) (path : String) : Failure → Prop
  | missing : s.frontEnd.files.contains path = false → Lacks s path (.parse (.sourceMissing path))
  | rejected : s.frontEnd.files.contains path = true → s.outcome path = .rejected →
    Lacks s path (.parse (.rejected path))
  | nothing : s.frontEnd.files.contains path = true → s.outcome path = .nothing →
    Lacks s path (.parse (.noUnit path))

/-- The arguments for the compiler are of the right kinds. -/
def Fit (s : UnitSession) : Prop :=
  ∀ path, ∃ arguments, s.frontEnd.options.argumentsFor path = .ok arguments

/-- A parse fails for one of the three reasons, or gives what the parser makes of the file. -/
theorem answer_of_reads (hfit : s.Fit) {r : Except Failure LoadedUnit} {c : UnitCache}
    (h : s.frontEnd.Reads path s.cache r c) :
    (∃ e, s.Lacks path e ∧ r = .error e) ∨
      ∃ unit, s.frontEnd.files.contains path = true ∧ s.outcome path = .unit unit ∧
        r = .ok ⟨s.cache.built + 1, unit⟩ := by
  cases h with
  | missing hcontains => exact .inl ⟨_, .missing hcontains, rfl⟩
  | unfit _ herror =>
    obtain ⟨arguments, hok⟩ := hfit path
    cases hok.symm.trans herror
  | rejected hcontains _ houtcome => exact .inl ⟨_, .rejected hcontains houtcome, rfl⟩
  | nothing hcontains _ houtcome => exact .inl ⟨_, .nothing hcontains houtcome, rfl⟩
  | @parsed _ unit hcontains _ houtcome => exact .inr ⟨unit, hcontains, houtcome, rfl⟩

/-- A request is answered by what is kept, or it is a parse of the file. -/
theorem kept_or_fresh (s : UnitSession) (path : String) (force : Bool) :
    (∃ loaded, force = false ∧ s.cache.find? (s.frontEnd.files.absolute path) = some loaded) ∨
      (force = true ∨ s.cache.find? (s.frontEnd.files.absolute path) = none) := by
  cases force with
  | true => exact .inr (.inl rfl)
  | false =>
    cases hfind : s.cache.find? (s.frontEnd.files.absolute path) with
    | none => exact .inr (.inr rfl)
    | some loaded => exact .inl ⟨loaded, rfl, rfl⟩

/-- In a turn that reads a file, the unit that the parser makes of it is the one that is given. -/
theorem parsed?_of_reads (hfit : s.Fit) {force : Bool} {r : Except Failure LoadedUnit}
    (h : s.frontEnd.Reads (s.frontEnd.files.absolute path) s.cache r
      (s.serve (.get path force)).2.cache) (other : String) :
    (s.turn (.get path force)).parsed? other =
      if s.frontEnd.files.absolute path = other then r.toOption else none := by
  obtain ⟨arguments, harguments⟩ := hfit (s.frontEnd.files.absolute path)
  have hcalls := h.calls_eq harguments
  simp only [turn, file?, UnitTurn.parsed?, hcalls, List.drop_left, Option.some_inj,
    Option.map_some]
  by_cases heq : s.frontEnd.files.absolute path = other
  · simp only [heq, true_and, ↓reduceIte] at h ⊢
    rcases answer_of_reads hfit h with ⟨e, hlacks, rfl⟩ | ⟨unit, hcontains, houtcome, rfl⟩
    · cases hlacks with
      | missing hcontains => simp [hcontains, Except.toOption]
      | rejected _ houtcome | nothing _ houtcome => simp [houtcome, Except.toOption]
    · simp [hcontains, houtcome, Except.toOption]
  · simp [heq]

/-- What is kept changes only by a parse that succeeds. -/
theorem find?_serve (hfit : s.Fit) (request : UnitRequest) (other : String) :
    (s.serve request).2.cache.find? other =
      ((s.turn request).parsed? other).or (s.cache.find? other) := by
  cases request with
  | change files => rfl
  | text source name =>
    simp [UnitCache.find?, units_serve_text, UnitTurn.parsed?, turn, file?]
  | get path force =>
    rcases s.kept_or_fresh path force with ⟨loaded, rfl, hfind⟩ | hfresh
    · simp [turn, UnitTurn.parsed?, serve_kept hfind]
    · obtain ⟨r, hreads, _⟩ := reads_serve hfresh
      rw [hreads.find?_eq other, parsed?_of_reads hfit hreads]

theorem fit_serve (hfit : s.Fit) (request : UnitRequest) : (s.serve request).2.Fit := by
  cases request <;> exact hfit

/-- The kept units are those of the last successful parses. -/
theorem find?_after (hfit : s.Fit) (requests : List UnitRequest) (path : String) :
    (s.after requests).cache.find? path =
      (UnitTurn.lastParsed (s.turns requests) path).or (s.cache.find? path) := by
  induction requests generalizing s with
  | nil => rfl
  | cons request rest ih =>
    have hstep : s.after (request :: rest) = (s.serve request).2.after rest := rfl
    rw [hstep, ih (fit_serve hfit request), find?_serve hfit, turns, UnitTurn.lastParsed_cons,
      Option.or_assoc]

theorem fit_after (hfit : s.Fit) (requests : List UnitRequest) : (s.after requests).Fit := by
  induction requests generalizing s with
  | nil => exact hfit
  | cons request rest ih => exact ih (fit_serve hfit request)

/-- How a request is served after what is past. -/
structure Serves (s : UnitSession) (past : List UnitTurn) (request : UnitRequest) : Prop where
  /-- The last unit of a file that was parsed before is given back as it is, whatever has become of
  the files. -/
  kept : ∀ path loaded, request = .get path false →
    UnitTurn.lastParsed past (s.frontEnd.files.absolute path) = some loaded →
    ∀ files : FileTree, files.cwd = s.frontEnd.files.cwd →
      serve { s with frontEnd := { s.frontEnd with files } } request =
        (.ok (some loaded), { s with frontEnd := { s.frontEnd with files } })
  /-- Otherwise the parser is called once for a file that exists, and not for one that does not. -/
  called : ∀ path force, request = .get path force →
    force = true ∨ UnitTurn.lastParsed past (s.frontEnd.files.absolute path) = none →
    ∃ arguments, (s.serve request).2.cache.calls = s.cache.calls ++
      if s.frontEnd.files.contains (s.frontEnd.files.absolute path)
      then [{ path := s.frontEnd.files.absolute path, arguments }] else []
  /-- A unit that the parser makes is given and kept. -/
  parsed : ∀ path force unit, request = .get path force →
    force = true ∨ UnitTurn.lastParsed past (s.frontEnd.files.absolute path) = none →
    s.frontEnd.files.contains (s.frontEnd.files.absolute path) = true →
    s.outcome (s.frontEnd.files.absolute path) = .unit unit →
    (s.serve request).1 = .ok (some ⟨s.cache.built + 1, unit⟩) ∧
      (s.serve request).2.cache.find? (s.frontEnd.files.absolute path) =
        some ⟨s.cache.built + 1, unit⟩
  /-- There are three reasons to fail, and no other. -/
  fails : ∀ path force e, request = .get path force →
    ((s.serve request).1 = .error e ↔
      (force = true ∨ UnitTurn.lastParsed past (s.frontEnd.files.absolute path) = none) ∧
        s.Lacks (s.frontEnd.files.absolute path) e)
  failed : ∀ path force e, request = .get path force → (s.serve request).1 = .error e →
    ∀ other, (s.serve request).2.cache.find? other = s.cache.find? other
  text : ∀ source name, request = .text source name →
    ∀ other, (s.serve request).2.cache.find? other = s.cache.find? other

/-- No file lacks a unit that the parser makes of it. -/
theorem Lacks.outcome_ne {e : Failure} (h : s.Lacks path e) {unit : TranslationUnit}
    (hcontains : s.frontEnd.files.contains path = true) : s.outcome path ≠ .unit unit := by
  cases h with
  | missing habsent => simp [hcontains] at habsent
  | rejected _ houtcome | nothing _ houtcome => simp [houtcome]

theorem Lacks.unique {e e' : Failure} (h : s.Lacks path e) (h' : s.Lacks path e') : e = e' := by
  cases h <;> cases h' <;> simp_all

theorem serves_of_find? {past : List UnitTurn}
    (hfind : ∀ path, s.cache.find? path = UnitTurn.lastParsed past path) (hfit : s.Fit)
    (request : UnitRequest) : s.Serves past request := by
  constructor
  case kept =>
    rintro path loaded rfl hlast files hcwd
    have habsolute : files.absolute path = s.frontEnd.files.absolute path := by
      simp only [FileTree.absolute, FileTree.cwdText, hcwd]
    refine serve_kept (s := { s with frontEnd := { s.frontEnd with files } }) ?_
    dsimp only
    rw [habsolute, hfind, hlast]
  case called =>
    rintro path force rfl hfresh
    rw [← hfind] at hfresh
    obtain ⟨r, hreads, _⟩ := reads_serve hfresh
    obtain ⟨arguments, harguments⟩ := hfit (s.frontEnd.files.absolute path)
    exact ⟨arguments, hreads.calls_eq harguments⟩
  case parsed =>
    rintro path force unit rfl hfresh hcontains houtcome
    rw [← hfind] at hfresh
    obtain ⟨r, hreads, hresult⟩ := reads_serve hfresh
    rcases answer_of_reads hfit hreads with ⟨e, hlacks, _⟩ | ⟨unit', _, houtcome', rfl⟩
    · exact absurd houtcome (hlacks.outcome_ne hcontains)
    · cases houtcome.symm.trans houtcome'
      refine ⟨hresult, ?_⟩
      simp [hreads.find?_eq, Except.toOption]
  case fails =>
    rintro path force e rfl
    rw [← hfind]
    rcases s.kept_or_fresh path force with ⟨loaded, rfl, hkept⟩ | hfresh
    · simp [serve_kept hkept, hkept]
    · obtain ⟨r, hreads, hresult⟩ := reads_serve hfresh
      rw [hresult]
      rcases answer_of_reads hfit hreads with ⟨e', hlacks, rfl⟩ | ⟨unit, hcontains, houtcome, rfl⟩
      · constructor
        · rintro ⟨⟩
          exact ⟨hfresh, hlacks⟩
        · rintro ⟨_, hlacks'⟩
          rw [hlacks.unique hlacks']
          rfl
      · constructor
        · rintro ⟨⟩
        · rintro ⟨_, hlacks⟩
          exact absurd houtcome (hlacks.outcome_ne hcontains)
  case failed =>
    rintro path force e rfl herror other
    rcases s.kept_or_fresh path force with ⟨loaded, rfl, hkept⟩ | hfresh
    · rw [serve_kept hkept]
    · obtain ⟨r, hreads, hresult⟩ := reads_serve hfresh
      rw [hresult] at herror
      cases r with
      | error e => simp [hreads.find?_eq, Except.toOption]
      | ok loaded => cases herror
  case text =>
    rintro source name rfl other
    simp only [UnitCache.find?, units_serve_text]

/-- Whatever was asked and changed before, each request is served by the history: the unit that is
kept for a file is the one that the parser made of it last. -/
theorem after_serves (program : Program) (files : FileTree) (includePaths arguments : List String)
    (standard : String) (past : List UnitRequest) (request : UnitRequest) :
    ((start program files includePaths arguments standard).after past).Serves
      ((start program files includePaths arguments standard).turns past) request := by
  have hfit : (start program files includePaths arguments standard).Fit :=
    CompilerOptions.argumentsFor_ofTexts includePaths arguments standard
  refine serves_of_find? (fun path => ?_) (fit_after hfit past) request
  rw [find?_after hfit]
  exact Option.or_none

end UnitSession

namespace SampleUnits

/-- The parser makes a unit of the file twice and rejects it from then on. -/
def session : UnitSession :=
  .start { outcomes := [("/a.cpp", [.unit { nodes := #[] }, .unit { nodes := #[] }, .rejected])] }
    { entries := [([], .directory), (["a.cpp"], .file (.bytes []))] } [] [] "c++17"

/-- The file is parsed, asked for by another spelling, parsed again, parsed in vain and deleted. -/
def past : List UnitRequest :=
  [.get "/a.cpp" false, .get "/./a.cpp" false, .get "/a.cpp" true, .get "/a.cpp" true,
    .change .empty]

/-- The second unit outlives the parse that failed and the file. -/
theorem serves_deleted :
    ((session.turns past).map fun turn =>
        (turn.calls.length, turn.result.toOption.map (·.map (·.serial)))) =
      [(1, some (some 1)), (0, some (some 1)), (1, some (some 2)), (1, none), (0, some none)] ∧
    ((session.after past).serve (.get "/a.cpp" false)).1.toOption.join.map (·.serial) = some 2 ∧
    (session.after past).Serves (session.turns past) (.get "/a.cpp" false) :=
  ⟨by decide +kernel, by decide +kernel, UnitSession.after_serves _ _ _ _ _ past _⟩

end SampleUnits

end NPlusOne
