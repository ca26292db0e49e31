import NPlusOne.Proofs.ArgumentFlags
import NPlusOne.Proofs.DiscoveryReturns
import NPlusOne.Proofs.TreeOutline
import NPlusOne.Proofs.SortedTexts

namespace NPlusOne

namespace Cmake

section Outline

variable {t u : FileTree} {home directory : String}

theorem includeOf_outline (h : t.SameOutline u) (v : Value) :
    includeOf t directory v = includeOf u directory v := by
  simp only [includeOf, h.resolve, h.isDirectory]

theorem addTo_outline (h : t.SameOutline u) (flags : Flags) (flag : Flag) :
    flag.addTo t directory flags = flag.addTo u directory flags := by
  cases flag with
  | «include» value => cases value <;> simp only [Flag.addTo, includeOf_outline h]
  | define text => cases text <;> rfl
  | standard | other => rfl

/-- The induction is on a bound of the number of arguments, since some flags take the next one. -/
theorem flagsOf_outline (h : t.SameOutline u) (args : List Value) (flags : Flags) :
    flagsOf t directory args flags = flagsOf u directory args flags := by
  generalize hn : args.length = n
  induction n using Nat.strongRecOn generalizing args flags with
  | ind n ih =>
    cases args with
    | nil => rfl
    | cons arg rest =>
      have hstep : ∀ flag flags rest', rest'.length < n →
          (flag : Flag).addTo t directory flags >>= flagsOf t directory rest' =
            flag.addTo u directory flags >>= flagsOf u directory rest' := by
        intro flag flags rest' hlt
        rw [addTo_outline h]
        exact bind_congr fun flags' => ih _ hlt rest' flags' rfl
      have hrest : rest.length < n := by simp [← hn]
      cases hf : Flag.of arg with
      | error e => rw [flagsOf_error hf, flagsOf_error hf]
      | ok flag =>
        by_cases hi : flag = .include none
        · subst hi
          cases rest with
          | nil => rw [flagsOf_lastInclude hf, flagsOf_lastInclude hf]
          | cons v rest =>
            rw [flagsOf_include hf, flagsOf_include hf]
            exact hstep _ _ _ (by simp at hrest; omega)
        · by_cases hd : flag = .define none
          · subst hd
            cases rest with
            | nil => rw [flagsOf_lastDefine hf, flagsOf_lastDefine hf]
            | cons v rest =>
              rw [flagsOf_define hf, flagsOf_define hf]
              exact bind_congr fun text => hstep _ _ _ (by simp at hrest; omega)
          · rw [flagsOf_cons hf hi hd, flagsOf_cons hf hi hd]
            exact hstep _ _ _ hrest

theorem addEntry_outline (h : t.SameOutline u) (home : String) :
    addEntry t home = addEntry u home := by
  funext p c
  simp only [addEntry_eq, flagsOf_outline h, sourceOf, h.resolve, h.isPresent]

end Outline

section Fold

variable {files : FileTree} {home : String} {p p' q : CmakeProject} {c : Compilation}
  {cs : List Compilation}

/-- What two projects say together; of two standards the second counts. -/
def combine (p q : CmakeProject) : CmakeProject :=
  { p with
    includePaths := p.includePaths ++ q.includePaths
    compilerArgs := p.compilerArgs ++ q.compilerArgs
    sourceFiles := p.sourceFiles ++ q.sourceFiles
    standard := q.standard.or p.standard }

/-- An entry says the same whatever has been said before. -/
theorem addEntry_combine : addEntry files home p c = .ok p' ↔
    ∃ q, addEntry files home {} c = .ok q ∧ p' = combine p q := by
  have hextend : ∀ flags source, extend p flags source = combine p (extend {} flags source) := by
    intro flags source
    unfold extend combine
    cases flags.standard with
    | none => simp
    | some name => by_cases hname : name = "" <;> simp [hname]
  simp only [addEntry_eq_ok]
  constructor
  · rintro ⟨directory, args, flags, source, hd, ha, hf, hs, rfl⟩
    exact ⟨_, ⟨directory, args, flags, source, hd, ha, hf, hs, rfl⟩, hextend flags source⟩
  · rintro ⟨_, ⟨directory, args, flags, source, hd, ha, hf, hs, rfl⟩, rfl⟩
    exact ⟨directory, args, flags, source, hd, ha, hf, hs, (hextend flags source).symm⟩

/-- A list of a project holds what some entry has put there. -/
theorem mem_addEntries (part : CmakeProject → List String)
    (hpart : ∀ p q, part (combine p q) = part p ++ part q)
    (h : cs.foldlM (addEntry files home) p = .ok p') (x : String) :
    x ∈ part p' ↔ x ∈ part p ∨ ∃ c ∈ cs, ∃ q, addEntry files home {} c = .ok q ∧ x ∈ part q := by
  induction cs generalizing p with
  | nil =>
    cases h
    simp
  | cons c cs ih =>
    rw [List.foldlM_cons] at h
    obtain ⟨mid, hadd, h⟩ := except_bind_eq_ok.mp h
    obtain ⟨q, hq, rfl⟩ := addEntry_combine.mp hadd
    simp only [ih h, hpart, List.mem_append, List.exists_mem_cons_iff, hq, Except.ok.injEq,
      exists_eq_left', or_assoc]

/-- Of entries with the same members, every sorted list of the project is the same. -/
theorem sortUnique_addEntries {cs' : List Compilation} (part : CmakeProject → List String)
    (hpart : ∀ p q, part (combine p q) = part p ++ part q) (hsame : ∀ c, c ∈ cs ↔ c ∈ cs')
    (h : cs.foldlM (addEntry files home) {} = .ok p)
    (h' : cs'.foldlM (addEntry files home) {} = .ok p') :
    sortUnique (part p) = sortUnique (part p') := by
  refine sortUnique_congr fun x => ?_
  simp only [mem_addEntries part hpart h, mem_addEntries part hpart h', hsame]

end Fold

/-- The standard that an entry names. -/
def EntryStandard (c : Compilation) (name : String) : Prop :=
  ∃ args, argumentsOf c = .ok args ∧ NamesStandard args name

/-- The entry names no standard, or an empty one. -/
def Silent (c : Compilation) : Prop :=
  ∀ name, EntryStandard c name → name = ""

/-- The standard of the last entry that names one which is not empty. -/
inductive LastStandard (cs : List Compilation) : Option String → Prop
  | given {before after : List Compilation} {c : Compilation} {name : String} :
    cs = before ++ c :: after → EntryStandard c name → name ≠ "" →
    (∀ other ∈ after, Silent other) → LastStandard cs (some name)
  | nowhere : (∀ c ∈ cs, Silent c) → LastStandard cs none

section Standard

variable {files : FileTree} {home : String} {p p' q : CmakeProject} {c : Compilation}
  {cs : List Compilation}

/-- Alone, an entry gives the standard that it names, unless that is empty. -/
theorem standard_addEntry (h : addEntry files home {} c = .ok q) :
    (∃ name, EntryStandard c name ∧ name ≠ "" ∧ q.standard = some name) ∨
      Silent c ∧ q.standard = none := by
  obtain ⟨directory, args, flags, source, _, ha, hf, _, rfl⟩ := addEntry_eq_ok.mp h
  have hnames : ∀ name, EntryStandard c name → flags.standard = some name := by
    rintro name ⟨args', ha', hnames⟩
    cases ha.symm.trans ha'
    exact (standard_eq_some_iff hf).mpr hnames
  cases hs : flags.standard with
  | none =>
    refine .inr ⟨fun name hname => ?_, by simp [extend, hs]⟩
    cases hs.symm.trans (hnames name hname)
  | some name =>
    by_cases hempty : name = ""
    · refine .inr ⟨fun other hother => ?_, by simp [extend, hs, hempty]⟩
      cases hs.symm.trans (hnames other hother)
      exact hempty
    · exact .inl ⟨name, ⟨args, ha, (standard_eq_some_iff hf).mp hs⟩, hempty,
        by simp [extend, hs, hempty]⟩

theorem standard_addEntries (h : cs.foldlM (addEntry files home) p = .ok p') :
    (∃ name, LastStandard cs (some name) ∧ p'.standard = some name) ∨
      LastStandard cs none ∧ p'.standard = p.standard := by
  induction cs generalizing p with
  | nil =>
    cases h
    exact .inr ⟨.nowhere (by simp), rfl⟩
  | cons c cs ih =>
    rw [List.foldlM_cons] at h
    obtain ⟨mid, hadd, h⟩ := except_bind_eq_ok.mp h
    obtain ⟨q, hq, rfl⟩ := addEntry_combine.mp hadd
    obtain ⟨name, hlast, hname⟩ | ⟨hlast, hkept⟩ := ih h
    · cases hlast with
      | @given before after other _ heq hgives hempty hsilent =>
        have hcons : c :: cs = (c :: before) ++ other :: after := by rw [heq]; rfl
        exact .inl ⟨name, .given hcons hgives hempty hsilent, hname⟩
    · cases hlast with
      | nowhere hsilent =>
        obtain ⟨name, hgives, hempty, hstandard⟩ | ⟨hquiet, hstandard⟩ := standard_addEntry hq
        · refine .inl ⟨name, LastStandard.given (List.nil_append _).symm hgives hempty hsilent, ?_⟩
          simp [hkept, combine, hstandard]
        · refine .inr ⟨.nowhere (List.forall_mem_cons.mpr ⟨hquiet, hsilent⟩), ?_⟩
          simp [hkept, combine, hstandard]

theorem lastStandard_addEntries (h : cs.foldlM (addEntry files home) {} = .ok p) :
    LastStandard cs p.standard := by
  obtain ⟨name, hlast, hname⟩ | ⟨hlast, hname⟩ := standard_addEntries h
  · rwa [hname]
  · rwa [hname]

end Standard

section Database

variable {σ : Type} [HasLog σ] {t u : FileTree} {input path : String}
  {entries entries' : List Value}

/-- All entries find the same on standard input if nothing stands there or none of them reads it. -/
theorem compilations_eq_map (h : input = "" ∨ ∀ entry ∈ entries, takesInput entry = false) :
    compilations input entries = entries.map (Compilation.mk · input) := by
  induction entries with
  | nil => rfl
  | cons entry rest ih =>
    have hleft : (if takesInput entry then "" else input) = input := by
      rcases h with rfl | h
      · exact ite_self _
      · rw [h entry List.mem_cons_self, if_neg Bool.false_ne_true]
    have hrest : input = "" ∨ ∀ other ∈ rest, takesInput other = false :=
      h.imp_right fun h other hmem => h other (List.mem_cons_of_mem _ hmem)
    rw [compilations, hleft, ih hrest, List.map_cons]

/-- A project is read from a database by putting its entries together. -/
theorem run_ofDatabase (h : Holds t path (some (.list entries))) (st : σ) :
    ((ofDatabase t input path).run st).1 =
      ((compilations input entries).foldlM (addEntry t (Path.parent path)) {}).map settle := by
  obtain ⟨mid, hread⟩ := (run_readDatabase st).mpr h
  have hparts : (Value.list entries).parts = .ok entries := rfl
  rw [ofDatabase, Task.run_bind_ok hread]
  dsimp only
  rw [hparts, Task.ofExcept_ok_bind]
  cases (compilations input entries).foldlM (addEntry t (Path.parent path)) {} with
  | error e => rfl
  | ok p => rfl

/-- The entries of a compilation database are taken as a set, unless one of them reads a command
from standard input. With the same entries in another order or more often, on a tree with the same
directories, links and files, reading the database fails as before or gives the same paths and
definitions. Only the standard goes by the order: it is that of the last entry that names one. -/
theorem ofDatabase_unordered (houtline : t.SameOutline u)
    (hentries : Holds t path (some (.list entries)))
    (hentries' : Holds u path (some (.list entries')))
    (hsame : ∀ entry, entry ∈ entries ↔ entry ∈ entries')
    (hinput : input = "" ∨ ∀ entry ∈ entries, takesInput entry = false) (st st' : σ) :
    (∃ e e', ((ofDatabase t input path).run st).1 = .error e ∧
      ((ofDatabase u input path).run st').1 = .error e') ∨
    ∃ p p', ((ofDatabase t input path).run st).1 = .ok p ∧
      ((ofDatabase u input path).run st').1 = .ok p' ∧
      p.includePaths = p'.includePaths ∧ p.compilerArgs = p'.compilerArgs ∧
      p.sourceFiles = p'.sourceFiles ∧ p.sourceDirectories = p'.sourceDirectories ∧
      LastStandard (entries.map (Compilation.mk · input)) p.standard ∧
      LastStandard (entries'.map (Compilation.mk · input)) p'.standard := by
  have hinput' : input = "" ∨ ∀ entry ∈ entries', takesInput entry = false :=
    hinput.imp_right fun h entry hmem => h entry ((hsame entry).mpr hmem)
  rw [run_ofDatabase hentries, run_ofDatabase hentries', ← addEntry_outline houtline,
    compilations_eq_map hinput, compilations_eq_map hinput']
  have hmap (c : Compilation) :
      c ∈ entries.map (Compilation.mk · input) ↔ c ∈ entries'.map (Compilation.mk · input) := by
    simp only [List.mem_map, hsame]
  generalize entries.map (Compilation.mk · input) = cs at hmap ⊢
  generalize entries'.map (Compilation.mk · input) = cs' at hmap ⊢
  have hreturns : (∃ p, cs.foldlM (addEntry t (Path.parent path)) {} = .ok p) ↔
      ∃ p, cs'.foldlM (addEntry t (Path.parent path)) {} = .ok p := by
    simp only [addEntries_returns, hmap]
  cases h : cs.foldlM (addEntry t (Path.parent path)) {} with
  | error e =>
    cases h' : cs'.foldlM (addEntry t (Path.parent path)) {} with
    | error e' => exact .inl ⟨e, e', rfl, rfl⟩
    | ok p' =>
      obtain ⟨p, hp⟩ := hreturns.mpr ⟨p', h'⟩
      cases h.symm.trans hp
  | ok p =>
    obtain ⟨p', h'⟩ := hreturns.mp ⟨p, h⟩
    have hincludes := sortUnique_addEntries (·.includePaths) (fun _ _ => rfl) hmap h h'
    have hargs := sortUnique_addEntries (·.compilerArgs) (fun _ _ => rfl) hmap h h'
    have hsources := sortUnique_addEntries (·.sourceFiles) (fun _ _ => rfl) hmap h h'
    have hhomes := sortUnique_addEntries (·.sourceFiles.map Path.parent)
      (fun _ _ => List.map_append) hmap h h'
    have hstandard := lastStandard_addEntries h
    have hstandard' := lastStandard_addEntries h'
    rw [h']
    exact .inr ⟨_, _, rfl, rfl, hincludes, hargs, hsources, hhomes, hstandard, hstandard'⟩

end Database

end Cmake

namespace SampleDatabase

open Cmake

def path : String :=
  "/compile_commands.json"

theorem databaseAlone_outline (data data' : List UInt8) :
    (databaseAlone data).SameOutline (databaseAlone data') where
  cwd := rfl
  alike names := by
    have hentry : ∀ data, FileTree.entry? (databaseAlone data) names =
        if names = [] then some .directory
        else if names = ["compile_commands.json"] then some (.file (.bytes data)) else none := by
      intro data
      by_cases hroot : names = []
      · simp [databaseAlone, FileTree.entry?, hroot]
      · by_cases hfile : names = ["compile_commands.json"]
        · simp [databaseAlone, FileTree.entry?, hfile]
        · simp [databaseAlone, FileTree.entry?, hroot, hfile, Ne.symm hroot, Ne.symm hfile]
    rw [hentry, hentry]
    split
    · exact .directory
    split
    · exact .file _ _
    · exact .nothing

/-- An entry that lists its arguments and says nothing else. -/
def listing (arguments : List String) : Value :=
  .map [(.text "arguments", .list (arguments.map .text))]

def texts? (items : List Value) : Option (List String) :=
  items.mapM fun
    | .text s => some s
    | _ => none

def arguments? : Value → Option (List String)
  | .map [(.text "arguments", .list items)] => texts? items
  | _ => none

def listings? : Value → Option (List (List String))
  | .list entries => entries.mapM arguments?
  | _ => none

theorem eq_map_of_mapM {α β : Type} {f : α → Option β} {g : β → α}
    (h : ∀ a b, f a = some b → a = g b) {xs : List α} {ys : List β} (hxs : xs.mapM f = some ys) :
    xs = ys.map g := by
  induction xs generalizing ys with
  | nil =>
    cases hxs
    rfl
  | cons x xs ih =>
    rw [List.mapM_cons] at hxs
    obtain ⟨y, hy, hxs⟩ := Option.bind_eq_some_iff.mp hxs
    obtain ⟨rest, hrest, hxs⟩ := Option.bind_eq_some_iff.mp hxs
    cases hxs
    rw [List.map_cons, ← h x y hy, ← ih hrest]

theorem eq_listing {v : Value} {arguments : List String} (h : arguments? v = some arguments) :
    v = listing arguments := by
  unfold arguments? at h
  split at h
  next items =>
    rw [listing, ← eq_map_of_mapM (fun v s hv => ?_) h]
    split at hv <;> cases hv
    rfl
  next => cases h

theorem eq_listings {v : Value} {lists : List (List String)} (h : listings? v = some lists) :
    v = .list (lists.map listing) := by
  unfold listings? at h
  split at h
  next entries => rw [← eq_map_of_mapM (fun _ _ => eq_listing) h]
  next => cases h

theorem holds_alone (lists : List (List String)) {text : String}
    (hread : (databaseAlone text.toUTF8.toList).read path = .ok text.toUTF8.toList)
    (htext : Utf8.decode? text.toUTF8.toList = some text.toList)
    (hparse : (Json.parse text.toList).toOption.bind listings? = some lists) :
    Holds (databaseAlone text.toUTF8.toList) path (some (.list (lists.map listing))) := by
  cases hdocument : Json.parse text.toList with
  | error e =>
    rw [hdocument] at hparse
    cases hparse
  | ok document =>
    rw [hdocument] at hparse
    rw [← eq_listings hparse]
    exact .document hread htext hdocument

def tagged : Value := listing ["-std=c++14", "-DA"]

def bare : Value := listing ["-DB", "-std="]

def tidyText : String :=
  "[\x7b\"arguments\":[\"-std=c++14\",\"-DA\"]\x7d,\x7b\"arguments\":[\"-DB\",\"-std=\"]\x7d]"

def shuffledText : String :=
  "[\x7b\"arguments\":[\"-DB\",\"-std=\"]\x7d,\x7b\"arguments\":[\"-std=c++14\",\"-DA\"]\x7d," ++
    "\x7b\"arguments\":[\"-DB\",\"-std=\"]\x7d]"

theorem shuffled_reads_same :
    (databaseAlone tidyText.toUTF8.toList).SameOutline (databaseAlone shuffledText.toUTF8.toList) ∧
    Holds (databaseAlone tidyText.toUTF8.toList) path (some (.list [tagged, bare])) ∧
    Holds (databaseAlone shuffledText.toUTF8.toList) path (some (.list [bare, tagged, bare])) ∧
    (∀ entry, entry ∈ [tagged, bare] ↔ entry ∈ [bare, tagged, bare]) ∧
    (∀ entry ∈ [tagged, bare], takesInput entry = false) ∧
    ∃ p', ((ofDatabase (databaseAlone shuffledText.toUTF8.toList) "cc" path).run
        (#[] : Log)).1 = .ok p' ∧
      p'.compilerArgs = ["-DA", "-DB"] := by
  have houtline := databaseAlone_outline tidyText.toUTF8.toList shuffledText.toUTF8.toList
  have htidy : Holds (databaseAlone tidyText.toUTF8.toList) path (some (.list [tagged, bare])) :=
    holds_alone [["-std=c++14", "-DA"], ["-DB", "-std="]] (by decide +kernel)
      (by decide +kernel) (by decide +kernel)
  have hshuffled : Holds (databaseAlone shuffledText.toUTF8.toList) path
      (some (.list [bare, tagged, bare])) :=
    holds_alone [["-DB", "-std="], ["-std=c++14", "-DA"], ["-DB", "-std="]]
      (by decide +kernel) (by decide +kernel) (by decide +kernel)
  have hsame : ∀ entry, entry ∈ [tagged, bare] ↔ entry ∈ [bare, tagged, bare] := by
    intro entry
    simp only [List.mem_cons, List.not_mem_nil, or_false]
    tauto
  have hfold : (compilations "cc" [tagged, bare]).foldlM
      (addEntry (databaseAlone tidyText.toUTF8.toList) (Path.parent path)) {} =
      .ok { compilerArgs := ["-DA", "-DB"], standard := some "c++14" } := by
    decide +kernel
  have hsorted : sortUnique ["-DA", "-DB"] = ["-DA", "-DB"] :=
    sortUnique_eq (by decide) fun _ => Iff.rfl
  have hrun := (run_ofDatabase htidy (#[] : Log)).trans (congrArg (Except.map settle) hfold)
  have hinput : ∀ entry ∈ [tagged, bare], takesInput entry = false := by decide +kernel
  refine ⟨houtline, htidy, hshuffled, hsame, hinput, ?_⟩
  obtain ⟨e, _, herror, _⟩ | ⟨p, p', hp, hp', _, hargs, _⟩ :=
    ofDatabase_unordered houtline htidy hshuffled hsame (.inr hinput) (#[] : Log) (#[] : Log)
  · cases hrun.symm.trans herror
  · cases hrun.symm.trans hp
    exact ⟨p', hp', hargs.symm.trans hsorted⟩

/-- The last argument looks like a standard, but is the include directory of the flag before it. -/
def hidden : Value := listing ["-I", "-std=c++11"]

def hiddenText : String :=
  "[\x7b\"arguments\":[\"-I\",\"-std=c++11\"]\x7d]"

theorem hidden_standard_unread :
    Holds (databaseAlone hiddenText.toUTF8.toList) path (some (.list [hidden])) ∧
    argumentsOf ⟨hidden, ""⟩ = .ok ([.text "-I"] ++ [.text ("-std=" ++ "c++11")]) ∧
    ∃ p, ((ofDatabase (databaseAlone hiddenText.toUTF8.toList) "" path).run (#[] : Log)).1 = .ok p ∧
      p.standard ≠ some "c++11" := by
  refine ⟨holds_alone [["-I", "-std=c++11"]] (by decide +kernel) (by decide +kernel)
    (by decide +kernel), ?_, {}, ?_, by simp⟩
  · have hmember : hidden.member "arguments" = .ok (.list [.text "-I", .text "-std=c++11"]) := by
      simp [hidden, listing, Value.member, Value.member?, Value.unfold, Value.find?, Value.same,
        Except.map]
    rw [argumentsOf, hmember]
    rfl
  · decide +kernel

end SampleDatabase

end NPlusOne
