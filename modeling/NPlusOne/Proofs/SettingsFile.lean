import NPlusOne.Proofs.FileContent
import NPlusOne.Proofs.YamlValues
import NPlusOne.Settings.File

namespace NPlusOne

namespace Setting

theorem ofKey?_key (name : Setting) : ofKey? name.key = some name := by
  cases name <;> decide

theorem key_injective : Function.Injective key := by
  intro name other h
  have hfound := ofKey?_key name
  rw [h, ofKey?_key] at hfound
  exact (Option.some.inj hfound).symm

theorem nodup_all : all.Nodup := by decide

theorem mem_all (name : Setting) : name ∈ all := by
  cases name <;> decide

theorem visible_key (name : Setting) : ∀ c ∈ name.key.toList, Yaml.IsVisible c := by
  cases name <;> exact List.forall_iff_forall_mem.mp (by decide)

end Setting

namespace Settings

section Entries

variable {s : Settings} {v : Value}

theorem get_put (s : Settings) (name other : Setting) (v : Value) :
    (s.put name v).get other = if other = name then v else s.get other := by
  cases name <;> cases other <;> rfl

theorem missing_put (s : Settings) (name : Setting) (v : Value) :
    (s.put name v).missing = s.missing := by
  cases name <;> rfl

theorem lost_put (s : Settings) (name : Setting) (v : Value) : (s.put name v).lost = s.lost := by
  cases name <;> rfl

/-- Sets several settings, each to a value of its own. -/
def putAll (s : Settings) (names : List Setting) (values : Setting → Value) : Settings :=
  names.foldl (fun s name => s.put name (values name)) s

/-- What is left alone when one setting is set is left alone when several are. -/
theorem putAll_leaves {α : Type} {part : Settings → α}
    (hput : ∀ s name v, part (s.put name v) = part s) (s : Settings) (names : List Setting)
    (values : Setting → Value) : part (s.putAll names values) = part s := by
  induction names generalizing s with
  | nil => rfl
  | cons name names ih => exact (ih _).trans (hput s name _)

theorem get_putAll (s : Settings) (names : List Setting) (values : Setting → Value)
    (other : Setting) :
    (s.putAll names values).get other = if other ∈ names then values other else s.get other := by
  induction names generalizing s with
  | nil => simp [putAll]
  | cons name names ih =>
    rw [putAll, List.foldl_cons, ← putAll, ih, get_put]
    by_cases hmem : other ∈ names
    · simp [hmem]
    · by_cases heq : other = name
      · simp [heq]
      · simp [hmem, heq]

theorem set_key (hmissing : s.missing = []) (name : Setting) (v : Value) :
    s.set name.key v = .ok (some (s.put name v)) := by
  cases name <;> simp [set, Setting.key, Setting.ofKey?, Setting.all, hmissing]

/-- Settings under their keys are all taken. -/
theorem setAll_run {σ : Type} [HasLog σ] (hmissing : s.missing = []) (names : List Setting)
    (values : Setting → Value) (st : σ) :
    (s.setAll (names.map fun name => (.text name.key, values name))).run st =
      (.ok (s.putAll names values), st) := by
  induction names generalizing s with
  | nil => rfl
  | cons name names ih =>
    have hkey : (Value.text name.key).asText = .ok name.key := rfl
    rw [List.map_cons, setAll, Task.run_ofExcept_bind hkey,
      Task.run_ofExcept_bind (set_key hmissing name _)]
    exact ih ((missing_put s name _).trans hmissing)

theorem mapM_value {names : List Setting} {es : List (String × Value)}
    (h : (names.mapM fun name => do return (name.key, ← s.value name)) = .ok es) :
    es = names.map fun name => (name.key, s.get name) := by
  induction names generalizing es with
  | nil =>
    cases h
    rfl
  | cons name names ih =>
    rw [List.mapM_cons] at h
    obtain ⟨e, he, h⟩ := except_bind_eq_ok.mp h
    obtain ⟨rest, hrest, h⟩ := except_bind_eq_ok.mp h
    obtain ⟨v, hv, he⟩ := except_bind_eq_ok.mp he
    cases h
    cases he
    rw [value] at hv
    split at hv
    next => cases hv
    next =>
      cases hv
      rw [List.map_cons, ih hrest]

/-- The settings that are not lost are listed with their values. -/
theorem entries_eq_ok {es : List (String × Value)} (h : s.entries = .ok es) :
    es = Setting.all.map fun name => (name.key, s.get name) := by
  obtain ⟨_, _, h⟩ := except_bind_eq_ok.mp h
  exact mapM_value h

theorem entries_of_whole (hlost : s.lost = []) (hmissing : s.missing = []) :
    s.entries = .ok (Setting.all.map fun name => (name.key, s.get name)) := by
  have hvalue : ∀ name, s.value name = .ok (s.get name) := fun name => by
    rw [value, hmissing]
    rfl
  simp only [entries, keeps, hlost, hvalue]
  rfl

end Entries

end Settings

theorem tenTo_eq (n : Nat) : tenTo n = 10 ^ n := rfl

namespace Value

/-- A text of visible characters. -/
def IsVisibleText (v : Value) : Prop :=
  ∃ s : String, v = .text s ∧ ∀ c ∈ s.toList, Yaml.IsVisible c

/-- A map from visible texts to such texts. -/
def IsTextMap (v : Value) : Prop :=
  ∃ es, v = .map es ∧ (es.map Prod.fst).Nodup ∧ ∀ e ∈ es, e.1.IsVisibleText ∧ e.2.IsVisibleText

theorem anyLongNumber_eq (vs : List Value) : anyLongNumber vs = vs.any hasLongNumber := by
  induction vs with
  | nil => rfl
  | cons v vs ih => rw [anyLongNumber, ih, List.any_cons]

theorem anyLongEntry_eq (es : List (Value × Value)) :
    anyLongEntry es = es.any fun e => e.1.hasLongNumber || e.2.hasLongNumber := by
  induction es with
  | nil => rfl
  | cons e es ih => rw [anyLongEntry, ih, List.any_cons]

theorem isVisibleText_text {s : String} (h : s.toList.all fun c => decide (Yaml.IsVisible c)) :
    (text s).IsVisibleText :=
  ⟨s, rfl, by simpa using h⟩

theorem IsVisibleText.hasLongNumber {v : Value} (h : v.IsVisibleText) :
    v.hasLongNumber = false := by
  obtain ⟨s, rfl, _⟩ := h
  rfl

theorem IsVisibleText.storable {v : Value} (h : v.IsVisibleText) (n : Nat) : Yaml.Storable n v := by
  obtain ⟨s, rfl, hs⟩ := h
  exact .text hs

theorem IsTextMap.hasLongNumber {v : Value} (h : v.IsTextMap) : v.hasLongNumber = false := by
  obtain ⟨es, rfl, _, hes⟩ := h
  rw [Value.hasLongNumber, anyLongEntry_eq, List.any_eq_false]
  intro e he
  simp [(hes e he).1.hasLongNumber, (hes e he).2.hasLongNumber]

theorem IsTextMap.storable {v : Value} (h : v.IsTextMap) (n : Nat) : Yaml.Storable (n + 1) v := by
  obtain ⟨es, rfl, hdistinct, hes⟩ := h
  exact .map ⟨fun e he => (hes e he).1, hdistinct⟩ fun e he => (hes e he).2.storable n

end Value

/-- What a setting holds that can be written in full. Only two of them may be left out. -/
def Setting.Accepts : Setting → Value → Prop
  | .includePaths, v | .sourceDirectories, v | .sourceFiles, v | .compilerArgs, v =>
    ∃ vs, v = .list vs ∧ ∀ u ∈ vs, u.IsVisibleText
  | .queryTypes, v => ∃ vs, v = .list vs ∧ ∀ u ∈ vs, u.IsTextMap
  | .jobs, v => ∃ n, v = .int n
  | .standard, v | .suppressionMarker, v | .logLevel, v => v.IsVisibleText
  | .excelOutput, v | .logFile, v => v = .null ∨ v.IsVisibleText

/-- A setting is written unless it is one of two and left out. -/
def Setting.isSaved (name : Setting) (v : Value) : Bool :=
  !((name.key = "excel_output" || name.key = "log_file") && v matches .null)

namespace Setting

variable {name : Setting} {v : Value}

theorem default_of_not_saved (h : name.isSaved v = false) :
    v = .null ∧ ({} : Settings).get name = .null := by
  have hoptional : name = .excelOutput ∨ name = .logFile := by
    cases name <;> simp [isSaved, key] at h ⊢
  have hnull : v = .null := by
    cases v <;> simp [isSaved] at h ⊢
  rcases hoptional with rfl | rfl
  · exact ⟨hnull, rfl⟩
  · exact ⟨hnull, rfl⟩

theorem Accepts.hasLongNumber (h : name.Accepts v) (hjobs : name ≠ .jobs) :
    v.hasLongNumber = false := by
  cases name with
  | includePaths | sourceDirectories | sourceFiles | compilerArgs =>
    obtain ⟨vs, rfl, hvs⟩ := h
    rw [Value.hasLongNumber, Value.anyLongNumber_eq, List.any_eq_false]
    intro u hu
    simp [(hvs u hu).hasLongNumber]
  | queryTypes =>
    obtain ⟨vs, rfl, hvs⟩ := h
    rw [Value.hasLongNumber, Value.anyLongNumber_eq, List.any_eq_false]
    intro u hu
    simp [(hvs u hu).hasLongNumber]
  | jobs => exact absurd rfl hjobs
  | standard | suppressionMarker | logLevel => exact Value.IsVisibleText.hasLongNumber h
  | excelOutput | logFile =>
    rcases h with rfl | h
    · rfl
    · exact h.hasLongNumber

theorem Accepts.storable (h : name.Accepts v) (hlong : v.hasLongNumber = false)
    (hsaved : name.isSaved v = true) : Yaml.Storable 2 v := by
  cases name with
  | includePaths | sourceDirectories | sourceFiles | compilerArgs =>
    obtain ⟨vs, rfl, hvs⟩ := h
    exact .list fun u hu => (hvs u hu).storable 1
  | queryTypes =>
    obtain ⟨vs, rfl, hvs⟩ := h
    exact .list fun u hu => (hvs u hu).storable 0
  | jobs =>
    obtain ⟨n, rfl⟩ := h
    rw [Value.hasLongNumber, decide_eq_false_iff_not, Nat.not_le, tenTo_eq] at hlong
    exact .int hlong
  | standard | suppressionMarker | logLevel => exact Value.IsVisibleText.storable h 2
  | excelOutput | logFile =>
    rcases h with rfl | h
    · cases hsaved
    · exact h.storable 2

end Setting

namespace Settings

variable {s : Settings}

/-- The settings that are written, and the document of them. -/
def savedSettings (s : Settings) : List Setting :=
  Setting.all.filter fun name => name.isSaved (s.get name)

def document (s : Settings) : Value :=
  .map (s.savedSettings.map fun name => (.text name.key, s.get name))

theorem savedEntries_eq {es : List (String × Value)} (h : s.savedEntries = .ok es) :
    .map (es.map fun e => (.text e.1, e.2)) = s.document := by
  obtain ⟨all, hall, heq⟩ := except_bind_eq_ok.mp h
  cases heq
  rw [entries_eq_ok hall, List.filter_map, List.map_map]
  rfl

theorem jobs_mem_savedSettings (s : Settings) : .jobs ∈ s.savedSettings :=
  List.mem_filter.mpr ⟨Setting.mem_all _, rfl⟩

theorem keyed_document (s : Settings) :
    Yaml.Keyed (s.savedSettings.map fun name => (.text name.key, s.get name)) where
  texts e he := by
    obtain ⟨name, _, rfl⟩ := List.mem_map.mp he
    exact ⟨name.key, rfl, name.visible_key⟩
  distinct := by
    rw [List.map_map]
    refine List.Nodup.map (fun name other h => ?_) (Setting.nodup_all.filter _)
    exact Setting.key_injective (Value.text.inj h)

/-- Every setting holds what it accepts. -/
def IsAccepted (s : Settings) : Prop :=
  ∀ name : Setting, name.Accepts (s.get name)

theorem IsAccepted.hasLongNumber_get (hs : s.IsAccepted) (hjobs : s.jobs.hasLongNumber = false)
    (name : Setting) : (s.get name).hasLongNumber = false := by
  by_cases heq : name = .jobs
  · subst heq
    exact hjobs
  · exact (hs name).hasLongNumber heq

/-- Only the number of workers can be too long to be written. -/
theorem IsAccepted.hasLongNumber_document (hs : s.IsAccepted) :
    s.document.hasLongNumber = s.jobs.hasLongNumber := by
  rw [document, Value.hasLongNumber, Value.anyLongEntry_eq, List.any_map]
  cases hjobs : s.jobs.hasLongNumber with
  | true =>
    refine List.any_eq_true.mpr ⟨.jobs, s.jobs_mem_savedSettings, ?_⟩
    have hentry : ((Value.text Setting.jobs.key).hasLongNumber || s.jobs.hasLongNumber) = true := by
      rw [hjobs, Bool.or_true]
    exact hentry
  | false =>
    refine List.any_eq_false.mpr fun name _ => ?_
    simp [Value.hasLongNumber, hs.hasLongNumber_get hjobs name]

theorem IsAccepted.storable_document (hs : s.IsAccepted) (hjobs : s.jobs.hasLongNumber = false) :
    Yaml.Storable 3 s.document := by
  refine .map s.keyed_document fun e he => ?_
  obtain ⟨name, hname, rfl⟩ := List.mem_map.mp he
  exact (hs name).storable (hs.hasLongNumber_get hjobs name) (List.mem_filter.mp hname).2

/-- The document of settings gives them back. -/
theorem ofValue_document {σ : Type} [HasLog σ] (s : Settings) (st : σ) :
    ∃ s', (ofValue s.document).run st = (.ok s', st) ∧
      s'.entries = .ok (Setting.all.map fun name => (name.key, s.get name)) := by
  refine ⟨putAll {} s.savedSettings s.get, setAll_run rfl _ _ st, ?_⟩
  rw [entries_of_whole (putAll_leaves lost_put _ _ _) (putAll_leaves missing_put _ _ _)]
  refine congrArg Except.ok (List.map_congr_left fun name _ => ?_)
  rw [get_putAll]
  split
  next => rfl
  next hunsaved =>
    have hname : name.isSaved (s.get name) = false := by
      simpa [savedSettings, Setting.mem_all] using hunsaved
    obtain ⟨hnull, hdefault⟩ := Setting.default_of_not_saved hname
    rw [hnull, hdefault]

theorem readText_write {files files' : FileTree} {path text : String}
    (htext : Yaml.Legible text.toList)
    (h : files.write path (.bytes text.toUTF8.toList) = .ok files') :
    readText files' path = .ok text.toList := by
  have hascii : ∀ c ∈ text.toList, c.toNat < 0x80 := by
    intro c hc
    rcases htext c hc with ⟨_, hhigh⟩ | rfl
    · have hle : c.toNat ≤ 0x7E := hhigh
      omega
    · decide
  have hreturn : '\r' ∉ text.toList := by
    intro hc
    rcases htext _ hc with hv | heq
    · exact absurd hv (by decide)
    · cases heq
  rw [readText, FileTree.read_write h]
  simp only [bind, Except.bind, Utf8.decode?_toUTF8 hascii, Text.unifyNewlines_eq hreturn]
  rfl

theorem isTruthy_document (s : Settings) : s.document.isTruthy = true := by
  have hne : s.savedSettings ≠ [] := List.ne_nil_of_mem s.jobs_mem_savedSettings
  simpa [document, Value.isTruthy, Value.unfold] using hne

/-- Settings that are read from the file that they were written to. -/
theorem IsAccepted.load_write {σ : Type} [HasLog σ] (hs : s.IsAccepted)
    (hjobs : s.jobs.hasLongNumber = false) {files files' : FileTree} {path : String}
    (h : files.write path (.bytes (Yaml.render s.document).toUTF8.toList) = .ok files') (st : σ) :
    ∃ s' st', (load files' path none).run st = (.ok s', st') ∧
      s'.entries = .ok (Setting.all.map fun name => (name.key, s.get name)) := by
  have hstorable := hs.storable_document hjobs
  have hne : (s.savedSettings.map fun name => (Value.text name.key, s.get name)) ≠ [] := by
    simpa using List.ne_nil_of_mem s.jobs_mem_savedSettings
  obtain ⟨out, ts, _, hlaid, hrender⟩ := hstorable.exists_render hne (by decide)
  have hlegible : Yaml.Legible (Yaml.render s.document).toList := by
    rw [document, hrender]
    exact Yaml.legible_append.mpr
      ⟨hlaid.legible, Yaml.legible_cons.mpr ⟨.inr rfl, Yaml.legible_nil⟩⟩
  have hload : (readText files' path >>= fun text => Yaml.load text) = .ok s.document := by
    rw [readText_write hlegible h]
    exact Yaml.load_render hstorable hne (by decide)
  obtain ⟨s', hvalue, hentries⟩ := s.ofValue_document st
  refine ⟨s', HasLog.append ⟨.info, .settings, s!"Configuration loaded from {path}"⟩ st, ?_,
    hentries⟩
  rw [load, Task.run_ofExcept_bind hload, if_pos s.isTruthy_document, Task.run_bind_ok hvalue]
  rfl

theorem run_writeDocument {path : String} {document : Value} {w w' : Workspace} :
    (writeDocument path document).run w = (.ok (), w') ↔ document.hasLongNumber = false ∧
      ∃ files, w.files.write path (.bytes (Yaml.render document).toUTF8.toList) = .ok files ∧
        w' = { w with files } := by
  cases hlong : document.hasLongNumber with
  | true =>
    rw [writeDocument, if_pos hlong]
    constructor
    · intro h
      obtain ⟨_, _, _, h⟩ := Task.run_bind_eq_ok h
      cases h
    · rintro ⟨h, _⟩
      cases h
  | false =>
    rw [writeDocument, if_neg (by simp [hlong])]
    exact Workspace.run_change.trans (by simp)

/-- When settings are saved: their directory can be made, the file can be written, and no number in
them is too long. -/
theorem run_save {path : String} {w w' : Workspace} :
    (s.save path).run w = (.ok (), w') ↔ s.keeps .save = .ok () ∧ (∃ es, s.entries = .ok es) ∧
      s.document.hasLongNumber = false ∧ ∃ files files',
        w.files.makeDirectories (Path.parent path) = .ok files ∧
        files.write path (.bytes (Yaml.render s.document).toUTF8.toList) = .ok files' ∧
        w' = ⟨files', w.log.push ⟨.info, .settings, s!"Configuration saved to {path}"⟩⟩ := by
  constructor
  · intro h
    obtain ⟨_, hkeeps, h⟩ := Task.ofExcept_bind_eq_ok h
    obtain ⟨_, w₁, hparent, h⟩ := Task.run_bind_eq_ok h
    obtain ⟨files, hfiles, rfl⟩ := Workspace.run_change.mp hparent
    obtain ⟨es, hes, h⟩ := Task.ofExcept_bind_eq_ok h
    obtain ⟨_, w₂, hwrite, h⟩ := Task.run_bind_eq_ok h
    cases h
    have hdocument := savedEntries_eq hes
    obtain ⟨all, hall, _⟩ := except_bind_eq_ok.mp hes
    obtain ⟨hlong, files', hfiles', rfl⟩ := run_writeDocument.mp hwrite
    exact ⟨hkeeps, ⟨all, hall⟩, hdocument ▸ hlong, files, files', hfiles, hdocument ▸ hfiles', rfl⟩
  · rintro ⟨hkeeps, ⟨es, hes⟩, hlong, files, files', hfiles, hfiles', rfl⟩
    have hparent : (Workspace.makeParent path).run w = (.ok (), { w with files }) :=
      Workspace.run_change.mpr ⟨files, hfiles, rfl⟩
    have hwrite : (writeDocument path s.document).run { w with files } =
        (.ok (), { w with files := files' }) :=
      run_writeDocument.mpr ⟨hlong, files', hfiles', rfl⟩
    obtain ⟨saved, hsaved⟩ : ∃ saved, s.savedEntries = .ok saved := by
      rw [savedEntries, hes]
      exact ⟨_, rfl⟩
    rw [← savedEntries_eq hsaved] at hwrite
    rw [save, Task.run_ofExcept_bind hkeeps, Task.run_bind_ok hparent,
      Task.run_ofExcept_bind hsaved]
    exact (Task.run_bind_ok hwrite).trans rfl

/-- Settings are saved whenever nothing hinders it, and they are the same when they are read
back. -/
theorem load_save {jobs : Int} (hs : s.IsAccepted) (hjobs : s.jobs = .int jobs) (path : String)
    (w : Workspace) :
    ((∃ w', (s.save path).run w = (.ok (), w')) ↔
      s.keeps .save = .ok () ∧ (∃ es, s.entries = .ok es) ∧ jobs.natAbs < 10 ^ maxDigits ∧
        ∃ files names, w.files.makeDirectories (Path.parent path) = .ok files ∧
          files.writable path = .ok names) ∧
    ∀ w', (s.save path).run w = (.ok (), w') →
      ∃ s' w'', (load w'.files path none).run w' = (.ok s', w'') ∧ s'.entries = s.entries := by
  have hlong : s.document.hasLongNumber = false ↔ jobs.natAbs < 10 ^ maxDigits := by
    rw [hs.hasLongNumber_document, hjobs, Value.hasLongNumber, decide_eq_false_iff_not, Nat.not_le,
      tenTo_eq]
  constructor
  · constructor
    · rintro ⟨w', h⟩
      obtain ⟨hkeeps, hes, hshort, files, files', hfiles, hwrite, _⟩ := run_save.mp h
      obtain ⟨names, hnames, _⟩ := except_bind_eq_ok.mp hwrite
      exact ⟨hkeeps, hes, hlong.mp hshort, files, names, hfiles, hnames⟩
    · rintro ⟨hkeeps, hes, hshort, files, names, hfiles, hnames⟩
      exact ⟨_, run_save.mpr ⟨hkeeps, hes, hlong.mpr hshort, files, _, hfiles,
        except_bind_eq_ok.mpr ⟨names, hnames, rfl⟩, rfl⟩⟩
  · intro w' h
    obtain ⟨_, ⟨es, hes⟩, hlong, files, files', _, hwrite, rfl⟩ := run_save.mp h
    rw [hs.hasLongNumber_document] at hlong
    rw [hes, entries_eq_ok hes]
    exact hs.load_write hlong hwrite _

end Settings

namespace Sample

/-- Settings whose texts all mean something else where they are not quoted. -/
def quotedSettings : Settings :=
  { includePaths := .list [.text "", .text "- a: 'b' # c", .text "~"]
    standard := .text "0x11"
    queryTypes := .list [.map [(.text "<<", .text "*x"), (.text "? ", .text "yes")]]
    jobs := .int (-7)
    logFile := .text "null" }

theorem isAccepted_quotedSettings : quotedSettings.IsAccepted := by
  have htext : ∀ t ∈ ["", "- a: 'b' # c", "~", "0x11", "<<", "*x", "? ", "yes", "null",
      "queryloop:ignore", "INFO"], (Value.text t).IsVisibleText := by
    intro t ht
    refine Value.isVisibleText_text ?_
    revert t
    decide
  intro name
  cases name with
  | includePaths => exact ⟨_, rfl, by simp [htext]⟩
  | sourceDirectories | sourceFiles | compilerArgs => exact ⟨[], rfl, by simp⟩
  | queryTypes =>
    refine ⟨_, rfl, fun v hv => ?_⟩
    rw [List.mem_singleton] at hv
    subst hv
    exact ⟨_, rfl, by simp, by simp [htext]⟩
  | jobs => exact ⟨_, rfl⟩
  | standard | suppressionMarker | logLevel => exact htext _ (by decide)
  | excelOutput => exact .inl rfl
  | logFile => exact .inr (htext _ (by decide))

theorem load_save_quotedSettings : quotedSettings.IsAccepted ∧ quotedSettings.jobs = .int (-7) ∧
    ∃ w', (quotedSettings.save "/d/q.yaml").run ⟨.empty, #[]⟩ = (.ok (), w') ∧
      ∃ s' w'', (Settings.load w'.files "/d/q.yaml" none).run w' = (.ok s', w'') ∧
        s'.entries = quotedSettings.entries := by
  obtain ⟨hsaved, hread⟩ :=
    Settings.load_save isAccepted_quotedSettings rfl "/d/q.yaml" ⟨.empty, #[]⟩
  have hshort : (-7 : Int).natAbs < 10 ^ maxDigits := by
    calc (-7 : Int).natAbs < 10 ^ 1 := by decide
      _ ≤ 10 ^ maxDigits := Nat.pow_le_pow_right (by decide) (by decide)
  have hplace : (FileTree.empty.makeDirectories (Path.parent "/d/q.yaml") >>= fun files =>
      files.writable "/d/q.yaml") = .ok ["d", "q.yaml"] := by
    decide +kernel
  obtain ⟨files, hparent, hfile⟩ := except_bind_eq_ok.mp hplace
  obtain ⟨w', hw⟩ := hsaved.mpr ⟨rfl, ⟨_, rfl⟩, hshort, files, _, hparent, hfile⟩
  exact ⟨isAccepted_quotedSettings, rfl, w', hw, hread w' hw⟩

/-- A number of workers with one digit too many is accepted but not saved, and the file is left
empty. -/
theorem save_fails_at_long_jobs :
    let s : Settings := { quotedSettings with jobs := .int (10 ^ maxDigits) }
    let saved := (s.save "/q.yaml").run ⟨.empty, #[]⟩
    s.IsAccepted ∧ saved.1 = .error (.tooManyDigits none) ∧
      saved.2.files.read "/q.yaml" = .ok [] := by
  intro s saved
  refine ⟨fun name => ?_, by decide +kernel, by decide +kernel⟩
  cases name with
  | jobs => exact ⟨_, rfl⟩
  | _ => exact isAccepted_quotedSettings _

end Sample

end NPlusOne
