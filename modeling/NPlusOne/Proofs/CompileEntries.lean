import NPlusOne.Cmake.CompileDatabase
import NPlusOne.Proofs.LinkResolution

namespace NPlusOne

namespace Cmake

/-- The path can be taken: it cannot be asked for at all, or it leads round in no circle and is not
too long. -/
def Passes (files : FileTree) (path : String) : Prop :=
  files.resolve path = .error .nullInPath ∨ files.resolve path = .error .notEncodable ∨
    ∃ real, files.resolve path = .ok real ∧ files.look real ≠ .error .nameTooLong

/-- The flags that the arguments stand for, each with its value. -/
inductive Asked : List Value → List Flag → Prop
  | nil : Asked [] []
  | joined {arg v : Value} {rest : List Value} {asks : List Flag} :
    Flag.of arg = .ok (.include (some v)) → Asked rest asks →
    Asked (arg :: rest) (.include (some v) :: asks)
  | split {arg v : Value} {rest : List Value} {asks : List Flag} :
    Flag.of arg = .ok (.include none) → Asked rest asks →
    Asked (arg :: v :: rest) (.include (some v) :: asks)
  | includeNothing {arg : Value} : Flag.of arg = .ok (.include none) → Asked [arg] []
  | defined {arg : Value} {text : String} {rest : List Value} {asks : List Flag} :
    Flag.of arg = .ok (.define (some text)) → Asked rest asks →
    Asked (arg :: rest) (.define (some text) :: asks)
  | define {arg v : Value} {text : String} {rest : List Value} {asks : List Flag} :
    Flag.of arg = .ok (.define none) → v.shown = .ok text → Asked rest asks →
    Asked (arg :: v :: rest) (.define (some ("-D" ++ text)) :: asks)
  | defineNothing {arg : Value} : Flag.of arg = .ok (.define none) →
    Asked [arg] [.define (some "-D")]
  | standard {arg : Value} {name : String} {rest : List Value} {asks : List Flag} :
    Flag.of arg = .ok (.standard name) → Asked rest asks →
    Asked (arg :: rest) (.standard name :: asks)
  | other {arg : Value} {rest : List Value} {asks : List Flag} : Flag.of arg = .ok .other →
    Asked rest asks → Asked (arg :: rest) asks

/-- What a flag with its value adds. -/
def Flag.addTo (files : FileTree) (directory : String) (flags : Flags) :
    Flag → Except Failure Flags
  | .include (some v) => do
    let found ← includeOf files directory v
    return { flags with includes := flags.includes ++ found }
  | .define (some text) => return { flags with defines := flags.defines ++ [text] }
  | .standard name => return { flags with standard := some name }
  | _ => return flags

variable {files : FileTree} {directory : String}

section Steps

variable {arg v : Value} {rest : List Value} {flags : Flags}

/-- A flag that has its value in itself. -/
theorem flagsOf_cons {flag : Flag} (h : Flag.of arg = .ok flag) (hi : flag ≠ .include none)
    (hd : flag ≠ .define none) : flagsOf files directory (arg :: rest) flags =
      flag.addTo files directory flags >>= flagsOf files directory rest := by
  rw [flagsOf.eq_def]
  simp only [h]
  cases flag with
  | «include» value =>
    cases value with
    | none => exact absurd rfl hi
    | some v =>
      change (includeOf files directory v >>= fun found => _) =
        (includeOf files directory v >>= _) >>= _
      rw [bind_assoc]
      rfl
  | define text =>
    cases text with
    | none => exact absurd rfl hd
    | some text => rfl
  | standard name => rfl
  | other => rfl

theorem flagsOf_include (h : Flag.of arg = .ok (.include none)) :
    flagsOf files directory (arg :: v :: rest) flags =
      (Flag.include (some v)).addTo files directory flags >>= flagsOf files directory rest := by
  rw [flagsOf.eq_def]
  simp only [h]
  change (includeOf files directory v >>= fun found => _) =
    (includeOf files directory v >>= _) >>= _
  rw [bind_assoc]
  rfl

theorem flagsOf_define (h : Flag.of arg = .ok (.define none)) :
    flagsOf files directory (arg :: v :: rest) flags =
      v.shown >>= fun text => (Flag.define (some ("-D" ++ text))).addTo files directory flags >>=
        flagsOf files directory rest := by
  rw [flagsOf.eq_def]
  simp only [h]
  rfl

theorem flagsOf_lastInclude (h : Flag.of arg = .ok (.include none)) :
    flagsOf files directory [arg] flags = .ok flags := by
  rw [flagsOf.eq_def]
  simp only [h]
  rfl

theorem flagsOf_lastDefine (h : Flag.of arg = .ok (.define none)) :
    flagsOf files directory [arg] flags =
      .ok { flags with defines := flags.defines ++ ["-D"] } := by
  rw [flagsOf.eq_def]
  simp only [h]
  rfl

theorem flagsOf_error {e : Failure} (h : Flag.of arg = .error e) :
    flagsOf files directory (arg :: rest) flags = .error e := by
  rw [flagsOf.eq_def]
  simp only [h]
  rfl

end Steps

theorem flagsOf_of_asked {args : List Value} {asks : List Flag} {flags : Flags}
    (h : Asked args asks) : flagsOf files directory args flags =
      asks.foldlM (Flag.addTo files directory) flags := by
  have hadd : ∀ {flag : Flag} {rest : List Value} {asks : List Flag} {flags : Flags},
      (∀ flags, flagsOf files directory rest flags =
        asks.foldlM (Flag.addTo files directory) flags) →
      flag.addTo files directory flags >>= flagsOf files directory rest =
        (flag :: asks).foldlM (Flag.addTo files directory) flags := by
    intro flag rest asks flags ih
    rw [List.foldlM_cons, funext ih]
  induction h generalizing flags with
  | nil => rfl
  | joined hf _ ih => rw [flagsOf_cons hf (by simp) (by simp), hadd fun _ => ih]
  | split hf _ ih => rw [flagsOf_include hf, hadd fun _ => ih]
  | includeNothing hf => exact flagsOf_lastInclude hf
  | defined hf _ ih => rw [flagsOf_cons hf (by simp) (by simp), hadd fun _ => ih]
  | @define _ _ text rest _ hf hs _ ih =>
    rw [flagsOf_define hf, hs]
    change (Flag.define (some ("-D" ++ text))).addTo files directory flags >>=
      flagsOf files directory rest = _
    exact hadd fun _ => ih
  | defineNothing hf => exact flagsOf_lastDefine hf
  | standard hf _ ih => rw [flagsOf_cons hf (by simp) (by simp), hadd fun _ => ih]
  | other hf _ ih =>
    rw [flagsOf_cons hf (by simp) (by simp)]
    exact ih

/-- Arguments that are read to their end stand for flags. The induction is on a bound of their
number, since some flags take the next argument too. -/
theorem exists_asked {args : List Value} {flags flags' : Flags}
    (h : flagsOf files directory args flags = .ok flags') : ∃ asks, Asked args asks := by
  generalize hn : args.length = n
  induction n using Nat.strongRecOn generalizing args flags with
  | ind n ih =>
    cases args with
    | nil => exact ⟨[], .nil⟩
    | cons arg rest =>
      have hrest : rest.length < n := by simp [← hn]
      cases hf : Flag.of arg with
      | error e => simp [flagsOf_error hf] at h
      | ok flag =>
        by_cases hi : flag = .include none
        · subst hi
          cases rest with
          | nil => exact ⟨_, .includeNothing hf⟩
          | cons v rest =>
            rw [flagsOf_include hf] at h
            obtain ⟨_, _, h⟩ := except_bind_eq_ok.mp h
            obtain ⟨asks, ha⟩ := ih rest.length (by simp at hrest; omega) h rfl
            exact ⟨_, .split hf ha⟩
        · by_cases hd : flag = .define none
          · subst hd
            cases rest with
            | nil => exact ⟨_, .defineNothing hf⟩
            | cons v rest =>
              rw [flagsOf_define hf] at h
              obtain ⟨text, hs, h⟩ := except_bind_eq_ok.mp h
              obtain ⟨_, _, h⟩ := except_bind_eq_ok.mp h
              obtain ⟨asks, ha⟩ := ih rest.length (by simp at hrest; omega) h rfl
              exact ⟨_, .define hf hs ha⟩
          · rw [flagsOf_cons hf hi hd] at h
            obtain ⟨_, _, h⟩ := except_bind_eq_ok.mp h
            obtain ⟨asks, ha⟩ := ih rest.length hrest h rfl
            cases flag with
            | «include» value =>
              cases value with
              | none => exact absurd rfl hi
              | some v => exact ⟨_, .joined hf ha⟩
            | define text =>
              cases text with
              | none => exact absurd rfl hd
              | some text => exact ⟨_, .defined hf ha⟩
            | standard name => exact ⟨_, .standard hf ha⟩
            | other => exact ⟨_, .other hf ha⟩

theorem flagsOf_eq_ok {args : List Value} {flags flags' : Flags} :
    flagsOf files directory args flags = .ok flags' ↔
      ∃ asks, Asked args asks ∧ asks.foldlM (Flag.addTo files directory) flags = .ok flags' := by
  constructor
  · intro h
    obtain ⟨asks, ha⟩ := exists_asked h
    exact ⟨asks, ha, by rw [← flagsOf_of_asked ha, h]⟩
  · rintro ⟨asks, ha, h⟩
    rw [flagsOf_of_asked ha, h]

/-- What an include flag asks for is nothing, or a path that can be taken. -/
def IncludeFits (files : FileTree) (directory : String) (v : Value) : Prop :=
  v.isTruthy = false ∨ ∃ s, v = .text s ∧ Passes files (Path.below directory s)

/-- An include directory is taken where it exists; nothing is taken of an empty value or of a path
that cannot be asked for. -/
theorem includeOf_eq_ok {v : Value} {found : List String} :
    includeOf files directory v = .ok found ↔
      v.isTruthy = false ∧ found = [] ∨
      v.isTruthy = true ∧ ∃ s, v = .text s ∧
        ((files.resolve (Path.below directory s) = .error .nullInPath ∨
            files.resolve (Path.below directory s) = .error .notEncodable) ∧ found = [] ∨
          ∃ real b, files.resolve (Path.below directory s) = .ok real ∧
            files.isDirectory real = .ok b ∧ found = if b then [real] else []) := by
  unfold includeOf
  cases ht : v.isTruthy with
  | false => simp [pure, Except.pure, eq_comm]
  | true =>
    simp only [Bool.not_true, Bool.false_eq_true, if_false, Bool.true_eq_false, false_and, false_or,
      true_and]
    rw [except_bind_eq_ok]
    simp only [Value.asText_eq_ok]
    refine exists_congr fun s => and_congr_right fun _ => ?_
    cases hr : files.resolve (Path.below directory s) with
    | ok real =>
      simp only [reduceCtorEq, or_self, false_and, false_or, Except.ok.injEq]
      rw [except_bind_eq_ok]
      constructor
      · rintro ⟨b, hb, h⟩
        cases b <;> cases h <;> exact ⟨real, _, rfl, hb, rfl⟩
      · rintro ⟨_, b, rfl, hb, rfl⟩
        exact ⟨b, hb, by cases b <;> rfl⟩
    | error e =>
      have hcases := FileTree.resolve_error hr
      cases hcases <;> simp [pure, Except.pure, throw, throwThe, MonadExceptOf.throw, eq_comm]

/-- A path that can be taken is one whose resolution can be tested, or that is passed over. -/
theorem passes_iff {path : String} : Passes files path ↔
    (files.resolve path = .error .nullInPath ∨ files.resolve path = .error .notEncodable) ∨
      ∃ real b, files.resolve path = .ok real ∧ files.isDirectory real = .ok b := by
  rw [Passes, ← or_assoc]
  refine or_congr_right (exists_congr fun real => ?_)
  constructor
  · rintro ⟨hr, hlook⟩
    obtain ⟨b, hb⟩ := (FileTree.asks_returns (FileTree.resolve_eq_ok hr).1).mpr hlook
    exact ⟨b, hr, hb⟩
  · rintro ⟨b, hr, hb⟩
    exact ⟨hr, (FileTree.asks_returns (FileTree.resolve_eq_ok hr).1).mp ⟨b, hb⟩⟩

theorem includeOf_returns {v : Value} :
    (∃ found, includeOf files directory v = .ok found) ↔ IncludeFits files directory v := by
  simp only [includeOf_eq_ok, IncludeFits, passes_iff]
  constructor
  · rintro ⟨_, ⟨hv, _⟩ | ⟨_, s, hs, ⟨hr, _⟩ | ⟨real, b, hr, hb, _⟩⟩⟩
    · exact .inl hv
    · exact .inr ⟨s, hs, .inl hr⟩
    · exact .inr ⟨s, hs, .inr ⟨real, b, hr, hb⟩⟩
  · intro h
    cases hv : v.isTruthy with
    | false => exact ⟨[], .inl ⟨rfl, rfl⟩⟩
    | true =>
      obtain hfalse | ⟨s, hs, hr | ⟨real, b, hr, hb⟩⟩ := h
      · exact absurd (hv.symm.trans hfalse) (by simp)
      · exact ⟨_, .inr ⟨rfl, s, hs, .inl ⟨hr, rfl⟩⟩⟩
      · exact ⟨_, .inr ⟨rfl, s, hs, .inr ⟨real, b, hr, hb, rfl⟩⟩⟩

theorem mem_includeOf {v : Value} {found : List String} {x : String}
    (h : includeOf files directory v = .ok found) (hx : x ∈ found) :
    ∃ s, v = .text s ∧ files.resolve (Path.below directory s) = .ok x ∧
      files.isDirectory x = .ok true := by
  obtain ⟨_, rfl⟩ | ⟨_, s, hs, ⟨_, rfl⟩ | ⟨real, b, hr, hb, rfl⟩⟩ := includeOf_eq_ok.mp h
  · cases hx
  · cases hx
  · cases b with
    | false => cases hx
    | true =>
      obtain rfl := List.mem_singleton.mp hx
      exact ⟨s, hs, hr, hb⟩

/-- The include directories and definitions that a flag with its value adds. -/
theorem mem_addTo {flag : Flag} {flags flags' : Flags}
    (h : flag.addTo files directory flags = .ok flags') :
    (∀ x ∈ flags'.includes, x ∈ flags.includes ∨ ∃ s, flag = .include (some (.text s)) ∧
      files.resolve (Path.below directory s) = .ok x ∧ files.isDirectory x = .ok true) ∧
    ∀ x ∈ flags'.defines, x ∈ flags.defines ∨ flag = .define (some x) := by
  have hsame : ∀ {flags' : Flags}, flags'.includes = flags.includes →
      flags'.defines = flags.defines → (∀ x ∈ flags'.includes, x ∈ flags.includes ∨
        ∃ s, flag = .include (some (.text s)) ∧
          files.resolve (Path.below directory s) = .ok x ∧ files.isDirectory x = .ok true) ∧
      ∀ x ∈ flags'.defines, x ∈ flags.defines ∨ flag = .define (some x) :=
    fun hi hd => ⟨fun x hx => .inl (hi ▸ hx), fun x hx => .inl (hd ▸ hx)⟩
  cases flag with
  | «include» value =>
    cases value with
    | none =>
      cases h
      exact hsame rfl rfl
    | some v =>
      obtain ⟨found, hfound, h⟩ := except_bind_eq_ok.mp h
      cases h
      refine ⟨fun x hx => ?_, fun x hx => .inl hx⟩
      rcases List.mem_append.mp hx with hx | hx
      · exact .inl hx
      · obtain ⟨s, rfl, hr⟩ := mem_includeOf hfound hx
        exact .inr ⟨s, rfl, hr⟩
  | define text =>
    cases text with
    | none =>
      cases h
      exact hsame rfl rfl
    | some text =>
      cases h
      refine ⟨fun x hx => .inl hx, fun x hx => ?_⟩
      rcases List.mem_append.mp hx with hx | hx
      · exact .inl hx
      · exact .inr (by rw [List.mem_singleton.mp hx])
  | standard name =>
    cases h
    exact hsame rfl rfl
  | other =>
    cases h
    exact hsame rfl rfl

/-- Includes and defines among the flags were there before or were asked for. -/
theorem mem_addAll {asks : List Flag} {flags flags' : Flags}
    (h : asks.foldlM (Flag.addTo files directory) flags = .ok flags') :
    (∀ x ∈ flags'.includes, x ∈ flags.includes ∨ ∃ s, .include (some (.text s)) ∈ asks ∧
      files.resolve (Path.below directory s) = .ok x ∧ files.isDirectory x = .ok true) ∧
    ∀ x ∈ flags'.defines, x ∈ flags.defines ∨ .define (some x) ∈ asks := by
  induction asks generalizing flags with
  | nil =>
    cases h
    exact ⟨fun x hx => .inl hx, fun x hx => .inl hx⟩
  | cons flag asks ih =>
    rw [List.foldlM_cons] at h
    obtain ⟨mid, hadd, h⟩ := except_bind_eq_ok.mp h
    obtain ⟨hi, hd⟩ := mem_addTo hadd
    obtain ⟨hincludes, hdefines⟩ := ih h
    constructor
    · intro x hx
      obtain hx | ⟨s, hs, hr⟩ := hincludes x hx
      · obtain hx | ⟨s, rfl, hr⟩ := hi x hx
        · exact .inl hx
        · exact .inr ⟨s, List.mem_cons_self, hr⟩
      · exact .inr ⟨s, List.mem_cons_of_mem _ hs, hr⟩
    · intro x hx
      obtain hx | hx := hdefines x hx
      · obtain hx | rfl := hd x hx
        · exact .inl hx
        · exact .inr List.mem_cons_self
      · exact .inr (List.mem_cons_of_mem _ hx)

theorem addTo_returns {flag : Flag} {flags : Flags} :
    (∃ flags', flag.addTo files directory flags = .ok flags') ↔
      ∀ v, flag = .include (some v) → IncludeFits files directory v := by
  cases flag with
  | «include» value =>
    cases value with
    | none => exact ⟨fun _ _ h => (by cases h), fun _ => ⟨flags, rfl⟩⟩
    | some v =>
      constructor
      · rintro ⟨_, h⟩ _ heq
        cases heq
        obtain ⟨found, hfound, _⟩ := except_bind_eq_ok.mp h
        exact includeOf_returns.mp ⟨found, hfound⟩
      · intro h
        obtain ⟨found, hfound⟩ := includeOf_returns.mpr (h v rfl)
        exact ⟨_, except_bind_eq_ok.mpr ⟨found, hfound, rfl⟩⟩
  | define text => cases text <;> exact ⟨fun _ _ h => (by cases h), fun _ => ⟨_, rfl⟩⟩
  | standard | other => exact ⟨fun _ _ h => (by cases h), fun _ => ⟨_, rfl⟩⟩

/-- Flags with their values can be added up if every include flag can be followed. -/
theorem addAll_returns {asks : List Flag} {flags : Flags} :
    (∃ flags', asks.foldlM (Flag.addTo files directory) flags = .ok flags') ↔
      ∀ v, .include (some v) ∈ asks → IncludeFits files directory v := by
  induction asks generalizing flags with
  | nil => exact ⟨fun _ _ h => (by cases h), fun _ => ⟨flags, rfl⟩⟩
  | cons flag asks ih =>
    simp only [List.foldlM_cons, except_bind_eq_ok]
    constructor
    · rintro ⟨flags', mid, hadd, h⟩ v hv
      rcases List.mem_cons.mp hv with rfl | hv
      · exact addTo_returns.mp ⟨mid, hadd⟩ v rfl
      · exact ih.mp ⟨flags', h⟩ v hv
    · intro h
      obtain ⟨mid, hadd⟩ : ∃ mid, flag.addTo files directory flags = .ok mid :=
        addTo_returns.mpr fun v hv => h v (hv ▸ List.mem_cons_self)
      obtain ⟨flags', hrest⟩ := ih.mpr fun v hv => h v (List.mem_cons_of_mem _ hv)
      exact ⟨flags', mid, hadd, hrest⟩

/-- The directory that the paths of an entry are seen from. -/
def EntryDirectory (home : String) (entry : Value) (directory : String) : Prop :=
  ∃ given, entry.member "directory" = .ok given ∧
    (given.isTruthy = true ∧ (∃ s, given = .text s ∧ directory = Path.tidy s) ∨
      given.isTruthy = false ∧ directory = home)

/-- The source file of an entry is not given, or it is a path that can be resolved and is not too
long. -/
def SourceFits (files : FileTree) (directory : String) (entry : Value) : Prop :=
  ∃ file, entry.member "file" = .ok file ∧ (file.isTruthy = false ∨ ∃ s real, file = .text s ∧
    files.resolve (Path.below directory s) = .ok real ∧ files.look real ≠ .error .nameTooLong)

/-- What an entry must have for the others to be reached. -/
def EntryFits (files : FileTree) (home : String) (c : Compilation) : Prop :=
  ∃ directory args asks, EntryDirectory home c.entry directory ∧ argumentsOf c = .ok args ∧
    Asked args asks ∧ (∀ v, .include (some v) ∈ asks → IncludeFits files directory v) ∧
    SourceFits files directory c.entry

theorem sourceOf_eq_ok {entry : Value} {found : List String} :
    sourceOf files directory entry = .ok found ↔ ∃ file, entry.member "file" = .ok file ∧
      (file.isTruthy = false ∧ found = [] ∨ file.isTruthy = true ∧ ∃ s real b, file = .text s ∧
        files.resolve (Path.below directory s) = .ok real ∧ files.isPresent real = .ok b ∧
        found = if b then [real] else []) := by
  unfold sourceOf
  rw [except_bind_eq_ok]
  refine exists_congr fun file => and_congr_right fun _ => ?_
  cases file.isTruthy with
  | false => simp [pure, Except.pure, eq_comm]
  | true =>
    simp only [Bool.not_true, Bool.false_eq_true, if_false, Bool.true_eq_false, false_and, false_or,
      true_and]
    constructor
    · intro h
      obtain ⟨s, hs, h⟩ := except_bind_eq_ok.mp h
      obtain ⟨real, hr, h⟩ := except_bind_eq_ok.mp h
      obtain ⟨b, hb, h⟩ := except_bind_eq_ok.mp h
      refine ⟨s, real, b, Value.asText_eq_ok.mp hs, hr, hb, ?_⟩
      cases b <;> cases h <;> rfl
    · rintro ⟨s, real, b, rfl, hr, hb, rfl⟩
      refine except_bind_eq_ok.mpr ⟨s, rfl, except_bind_eq_ok.mpr ⟨real, hr,
        except_bind_eq_ok.mpr ⟨b, hb, ?_⟩⟩⟩
      cases b <;> rfl

theorem sourceOf_returns {entry : Value} :
    (∃ found, sourceOf files directory entry = .ok found) ↔ SourceFits files directory entry := by
  simp only [sourceOf_eq_ok, SourceFits]
  constructor
  · rintro ⟨_, file, hf, ⟨ht, _⟩ | ⟨_, s, real, b, hs, hr, hb, _⟩⟩
    · exact ⟨file, hf, .inl ht⟩
    · exact ⟨file, hf, .inr ⟨s, real, hs, hr,
        (FileTree.asks_returns (FileTree.resolve_eq_ok hr).1).mp ⟨b, hb⟩⟩⟩
  · rintro ⟨file, hf, h⟩
    cases ht : file.isTruthy with
    | false => exact ⟨[], file, hf, .inl ⟨ht, rfl⟩⟩
    | true =>
      obtain hfalse | ⟨s, real, hs, hr, hlook⟩ := h
      · exact absurd (ht.symm.trans hfalse) (by simp)
      · obtain ⟨b, hb⟩ := (FileTree.asks_returns (FileTree.resolve_eq_ok hr).1).mpr hlook
        exact ⟨_, file, hf, .inr ⟨ht, s, real, b, hs, hr, hb, rfl⟩⟩

/-- What an entry adds to a project. -/
def extend (p : CmakeProject) (flags : Flags) (source : List String) : CmakeProject :=
  { p with
    includePaths := p.includePaths ++ flags.includes
    compilerArgs := p.compilerArgs ++ flags.defines
    sourceFiles := p.sourceFiles ++ source
    standard := match flags.standard with
      | some name => if name = "" then p.standard else some name
      | none => p.standard }

theorem addEntry_eq (home : String) (p : CmakeProject) (c : Compilation) :
    addEntry files home p c = c.entry.member "directory" >>= fun given =>
      (if given.isTruthy then Path.tidy <$> given.asText else pure home) >>= fun directory =>
      argumentsOf c >>= fun args => flagsOf files directory args {} >>= fun flags =>
      sourceOf files directory c.entry >>= fun source => .ok (extend p flags source) := by
  refine bind_congr fun given => ?_
  cases given.isTruthy <;> rfl

/-- An entry is added exactly if its directory, its arguments and its file can be read. -/
theorem addEntry_eq_ok {home : String} {p p' : CmakeProject} {c : Compilation} :
    addEntry files home p c = .ok p' ↔ ∃ directory args flags source,
      EntryDirectory home c.entry directory ∧ argumentsOf c = .ok args ∧
      flagsOf files directory args {} = .ok flags ∧ sourceOf files directory c.entry = .ok source ∧
      p' = extend p flags source := by
  rw [addEntry_eq]
  constructor
  · intro h
    obtain ⟨given, hg, h⟩ := except_bind_eq_ok.mp h
    obtain ⟨directory, hd, h⟩ := except_bind_eq_ok.mp h
    obtain ⟨args, ha, h⟩ := except_bind_eq_ok.mp h
    obtain ⟨flags, hf, h⟩ := except_bind_eq_ok.mp h
    obtain ⟨source, hs, h⟩ := except_bind_eq_ok.mp h
    cases h
    refine ⟨directory, args, flags, source, ⟨given, hg, ?_⟩, ha, hf, hs, rfl⟩
    split at hd
    next ht =>
      cases given with
      | text s =>
        cases hd
        exact .inl ⟨ht, s, rfl, rfl⟩
      | _ => cases hd
    next ht =>
      cases hd
      exact .inr ⟨by simpa using ht, rfl⟩
  · rintro ⟨directory, args, flags, source, ⟨given, hg, hd⟩, ha, hf, hs, rfl⟩
    refine except_bind_eq_ok.mpr ⟨given, hg, except_bind_eq_ok.mpr ⟨directory, ?_,
      except_bind_eq_ok.mpr ⟨args, ha, except_bind_eq_ok.mpr ⟨flags, hf,
      except_bind_eq_ok.mpr ⟨source, hs, rfl⟩⟩⟩⟩⟩
    obtain ⟨ht, s, rfl, rfl⟩ | ⟨ht, rfl⟩ := hd
    · rw [if_pos ht]
      rfl
    · rw [if_neg (by simp [ht])]
      rfl

theorem addEntry_returns {home : String} {p : CmakeProject} {c : Compilation} :
    (∃ p', addEntry files home p c = .ok p') ↔ EntryFits files home c := by
  simp only [addEntry_eq_ok, EntryFits]
  constructor
  · rintro ⟨_, directory, args, flags, source, hd, ha, hf, hs, _⟩
    obtain ⟨asks, hasked, hadd⟩ := flagsOf_eq_ok.mp hf
    exact ⟨directory, args, asks, hd, ha, hasked, addAll_returns.mp ⟨flags, hadd⟩,
      sourceOf_returns.mp ⟨source, hs⟩⟩
  · rintro ⟨directory, args, asks, hd, ha, hasked, hfits, hsource⟩
    obtain ⟨flags, hadd⟩ := addAll_returns.mpr hfits
    obtain ⟨source, hs⟩ := sourceOf_returns.mpr hsource
    exact ⟨_, directory, args, flags, source, hd, ha, flagsOf_eq_ok.mpr ⟨asks, hasked, hadd⟩, hs,
      rfl⟩

/-- All entries can be added if each of them can be. -/
theorem addEntries_returns {home : String} {p : CmakeProject} {cs : List Compilation} :
    (∃ p', cs.foldlM (addEntry files home) p = .ok p') ↔ ∀ c ∈ cs, EntryFits files home c := by
  induction cs generalizing p with
  | nil => exact ⟨fun _ _ h => (by cases h), fun _ => ⟨p, rfl⟩⟩
  | cons c cs ih =>
    simp only [List.foldlM_cons, except_bind_eq_ok, List.forall_mem_cons]
    constructor
    · rintro ⟨p', mid, hadd, h⟩
      exact ⟨addEntry_returns.mp ⟨mid, hadd⟩, ih.mp ⟨p', h⟩⟩
    · rintro ⟨hentry, hrest⟩
      obtain ⟨mid, hadd⟩ := addEntry_returns.mpr hentry
      obtain ⟨p', h⟩ := ih.mpr hrest
      exact ⟨p', mid, hadd, h⟩

/-- An include path that an entry asks for. -/
def EntryIncludes (home : String) (c : Compilation) (path : String) : Prop :=
  ∃ directory args asks s, EntryDirectory home c.entry directory ∧ argumentsOf c = .ok args ∧
    Asked args asks ∧ .include (some (.text s)) ∈ asks ∧ path = Path.below directory s

/-- The source file that an entry is about. -/
def EntrySource (home : String) (c : Compilation) (path : String) : Prop :=
  ∃ directory s, EntryDirectory home c.entry directory ∧ c.entry.member "file" = .ok (.text s) ∧
    path = Path.below directory s

theorem startsWith_of_flag {arg : Value} {text : String}
    (h : Flag.of arg = .ok (.define (some text))) : text.startsWith "-D" = true := by
  unfold Flag.of at h
  split at h
  next s =>
    split at h
    next => cases h
    next =>
      split at h
      next => cases h
      next =>
        split at h
        next => cases h
        next =>
          split at h
          next hlead =>
            cases h
            exact hlead
          next => split at h <;> cases h
  next => cases h

theorem startsWith_of_asked {args : List Value} {asks : List Flag} {text : String}
    (h : Asked args asks) (ht : .define (some text) ∈ asks) : text.startsWith "-D" = true := by
  have happend : ∀ s : String, ("-D" ++ s).startsWith "-D" = true := fun s => by
    rw [String.startsWith_string_iff, String.toList_append]
    exact List.prefix_append _ _
  induction h with
  | nil | includeNothing => cases ht
  | joined _ _ ih | split _ _ ih | standard _ _ ih => exact ih (by simpa using ht)
  | defined hf _ ih =>
    rcases List.mem_cons.mp ht with heq | ht
    · cases heq
      exact startsWith_of_flag hf
    · exact ih ht
  | define _ _ _ ih =>
    rcases List.mem_cons.mp ht with heq | ht
    · cases heq
      exact happend _
    · exact ih ht
  | defineNothing =>
    cases List.mem_singleton.mp ht
    exact happend ""
  | other _ _ ih => exact ih ht

/-- Where the parts of a project come from: its directories and files are what paths of two kinds
resolve to. -/
structure Gathered (files : FileTree) (named sources : String → Prop) (p : CmakeProject) :
    Prop where
  includes : ∀ x ∈ p.includePaths, files.isDirectory x = .ok true ∧
    ∃ q, named q ∧ files.resolve q = .ok x
  sources : ∀ x ∈ p.sourceFiles, files.isPresent x = .ok true ∧
    ∃ q, sources q ∧ files.resolve q = .ok x
  args : ∀ x ∈ p.compilerArgs, x.startsWith "-D" = true

theorem Gathered.empty (named sources : String → Prop) : Gathered files named sources {} :=
  ⟨by simp, by simp, by simp⟩

theorem mem_sourceOf {entry : Value} {found : List String} {x : String}
    (h : sourceOf files directory entry = .ok found) (hx : x ∈ found) :
    ∃ s, entry.member "file" = .ok (.text s) ∧ files.resolve (Path.below directory s) = .ok x ∧
      files.isPresent x = .ok true := by
  obtain ⟨file, hf, ⟨_, rfl⟩ | ⟨_, s, real, b, rfl, hr, hb, rfl⟩⟩ := sourceOf_eq_ok.mp h
  · cases hx
  · cases b with
    | false => cases hx
    | true =>
      obtain rfl := List.mem_singleton.mp hx
      exact ⟨s, hf, hr, hb⟩

/-- An entry adds what it names and nothing else. -/
theorem Gathered.addEntry {home : String} {p p' : CmakeProject} {c : Compilation}
    {named sources : String → Prop} (hp : Gathered files named sources p)
    (hn : ∀ q, EntryIncludes home c q → named q) (hs : ∀ q, EntrySource home c q → sources q)
    (h : Cmake.addEntry files home p c = .ok p') : Gathered files named sources p' := by
  obtain ⟨directory, args, flags, source, hd, ha, hf, hsource, rfl⟩ := addEntry_eq_ok.mp h
  obtain ⟨asks, hasked, hadd⟩ := flagsOf_eq_ok.mp hf
  obtain ⟨hincludes, hdefines⟩ := mem_addAll hadd
  refine ⟨fun x hx => ?_, fun x hx => ?_, fun x hx => ?_⟩
  · rcases List.mem_append.mp hx with hx | hx
    · exact hp.includes x hx
    · obtain hx | ⟨s, hask, hr, hb⟩ := hincludes x hx
      · cases hx
      · exact ⟨hb, _, hn _ ⟨directory, args, asks, s, hd, ha, hasked, hask, rfl⟩, hr⟩
  · rcases List.mem_append.mp hx with hx | hx
    · exact hp.sources x hx
    · obtain ⟨s, hfile, hr, hb⟩ := mem_sourceOf hsource hx
      exact ⟨hb, _, hs _ ⟨directory, s, hd, hfile, rfl⟩, hr⟩
  · rcases List.mem_append.mp hx with hx | hx
    · exact hp.args x hx
    · obtain hx | hask := hdefines x hx
      · cases hx
      · exact startsWith_of_asked hasked hask

theorem Gathered.addEntries {home : String} {p p' : CmakeProject} {cs : List Compilation}
    {named sources : String → Prop} (hp : Gathered files named sources p)
    (hn : ∀ c ∈ cs, ∀ q, EntryIncludes home c q → named q)
    (hs : ∀ c ∈ cs, ∀ q, EntrySource home c q → sources q)
    (h : cs.foldlM (Cmake.addEntry files home) p = .ok p') : Gathered files named sources p' := by
  induction cs generalizing p with
  | nil =>
    cases h
    exact hp
  | cons c cs ih =>
    rw [List.foldlM_cons] at h
    obtain ⟨mid, hadd, h⟩ := except_bind_eq_ok.mp h
    exact ih (hp.addEntry (hn c List.mem_cons_self) (hs c List.mem_cons_self) hadd)
      (fun other hm => hn other (List.mem_cons_of_mem _ hm))
      (fun other hm => hs other (List.mem_cons_of_mem _ hm)) h

end Cmake

end NPlusOne
