import NPlusOne.Proofs.AnalysisHome
import NPlusOne.Proofs.DiscoveryReturns
import NPlusOne.Settings.File

namespace NPlusOne

namespace FileTree

variable {t : FileTree} {q x : String} {e : Entry}

/-- The path leads to an entry through directories alone, without any link. -/
def PlacedAt (t : FileTree) (path : String) (e : Entry) : Prop :=
  ∃ names, path = pathText names ∧ t.Placed names e

theorem Unhindered.placedAt (h : t.Unhindered q) (hcwd : t.Placed t.cwd .directory)
    (hr : t.resolve q = .ok x) {names : List String} (hl : t.look x = .ok (names, e)) :
    t.PlacedAt x e :=
  ⟨names, h.placed hcwd hr hl⟩

theorem Unhindered.placedAt_directory (h : t.Unhindered q) (hcwd : t.Placed t.cwd .directory)
    (hr : t.resolve q = .ok x) (hd : t.isDirectory x = .ok true) : t.PlacedAt x .directory := by
  obtain ⟨_, names, hl⟩ := isDirectory_eq_true.mp hd
  exact h.placedAt hcwd hr hl

theorem Unhindered.placedAt_present (h : t.Unhindered q) (hcwd : t.Placed t.cwd .directory)
    (hr : t.resolve q = .ok x) (hp : t.isPresent x = .ok true) : ∃ e, t.PlacedAt x e := by
  obtain ⟨_, ⟨names, e⟩, hl⟩ := isPresent_eq_true.mp hp
  exact ⟨e, h.placedAt hcwd hr hl⟩

theorem PlacedAt.parent (h : t.PlacedAt x e) (hcwd : t.Placed t.cwd .directory) :
    t.PlacedAt (Path.parent x) .directory := by
  obtain ⟨names, rfl, hplaced⟩ := h
  have hspelt := spelt_pathText fun name hm => (hplaced.fits name hm).1
  have hparent : Path.parent (pathText names) = pathText names.dropLast := by
    have hrest := spelt_pathText fun name hm => (hplaced.fits name (List.mem_of_mem_dropLast hm)).1
    rw [← String.toList_inj, (hspelt.parent (by omega)).text, hrest.text]
  refine ⟨names.dropLast, hparent, ?_⟩
  obtain rfl | ⟨front, name, rfl⟩ := List.eq_nil_or_concat' names
  · exact hcwd.root
  · rw [List.dropLast_concat]
    exact hplaced.of_prefix (List.prefix_append _ _) (by simp)

theorem isPresent_of_isDirectory (h : t.isDirectory x = .ok true) : t.isPresent x = .ok true := by
  obtain ⟨hask, names, hl⟩ := isDirectory_eq_true.mp h
  exact isPresent_eq_true.mpr ⟨hask, _, hl⟩

theorem isAskable_append {a b : String} (h : isAskable (a ++ b) = true) : isAskable a = true := by
  simp only [isAskable, Text.isFileName, hasNull, String.toList_append, List.all_append,
    List.mem_append, Bool.and_eq_true, Bool.not_eq_true', decide_eq_false_iff_not, not_or] at h ⊢
  exact ⟨h.1.1, h.2.1⟩

/-- What a path was resolved to lies in a directory, if it is there. -/
theorem isDirectory_parent (hr : t.resolve q = .ok x) (hp : t.isPresent x = .ok true) :
    t.isDirectory (Path.parent x) = .ok true := by
  obtain ⟨hnormal, habsolute⟩ := normal_resolve hr
  obtain ⟨k, parts, hk, hspelt⟩ := Path.exists_spelt hnormal habsolute
  obtain ⟨hask, found, hl⟩ := isPresent_eq_true.mp hp
  obtain ⟨rest, hrest⟩ := exists_parent_append hspelt hk
  rw [hrest] at hask
  exact isDirectory_eq_true.mpr ⟨isAskable_append hask, exists_look_parent hspelt hk hl⟩

end FileTree

namespace Cmake

section Database

variable {σ : Type} [HasLog σ] {files : FileTree} {input path : String} {st st' : σ}

/-- The paths of a kind that the entries of a compilation database name. -/
def DatabaseNames (files : FileTree) (input path : String)
    (names : String → Compilation → String → Prop) (q : String) : Prop :=
  ∃ document entries, ∃ c ∈ compilations input entries, Holds files path (some document) ∧
    document.parts = .ok entries ∧ names (Path.parent path) c q

theorem ofDatabase_spec {p : CmakeProject}
    (h : (ofDatabase files input path).run st = (.ok p, st')) :
    Gathered files (DatabaseNames files input path EntryIncludes)
        (DatabaseNames files input path EntrySource) p ∧
      Distinct p ∧ ∀ x ∈ p.sourceDirectories, ∃ f ∈ p.sourceFiles, x = Path.parent f := by
  obtain ⟨document, mid, hread, h⟩ := Task.run_bind_eq_ok h
  have hholds := (run_readDatabase st).mp ⟨mid, hread⟩
  cases document with
  | none =>
    cases h
    exact ⟨.empty _ _, ⟨.nil, .nil, .nil, .nil⟩, by simp⟩
  | some document =>
    obtain ⟨entries, hparts, h⟩ := Task.ofExcept_bind_eq_ok h
    obtain ⟨q, hadd, h⟩ := Task.ofExcept_bind_eq_ok h
    cases h
    have hgathered : Gathered files (DatabaseNames files input path EntryIncludes)
        (DatabaseNames files input path EntrySource) q :=
      (Gathered.empty _ _).addEntries
        (fun c hm _ hq => ⟨document, entries, c, hm, hholds, hparts, hq⟩)
        (fun c hm _ hq => ⟨document, entries, c, hm, hholds, hparts, hq⟩) hadd
    refine ⟨⟨fun x hx => hgathered.includes x (mem_sortUnique.mp hx),
      fun x hx => hgathered.sources x (mem_sortUnique.mp hx),
      fun x hx => hgathered.args x (mem_sortUnique.mp hx)⟩,
      ⟨nodup_sortUnique _, nodup_sortUnique _, nodup_sortUnique _, nodup_sortUnique _⟩, ?_⟩
    intro x hx
    obtain ⟨f, hf, rfl⟩ := List.mem_map.mp (mem_sortUnique.mp hx)
    exact ⟨f, mem_sortUnique.mpr hf, rfl⟩

end Database

section Project

variable {σ : Type} [HasLog σ] {files : FileTree} {input directory : String} {st st' : σ}

/-- The include paths that a project names, in the database that was found or else in its list
files. -/
def Includes (files : FileTree) (input root : String) (found : Option String) (q : String) : Prop :=
  found.elim (ListsName files root q) fun path => DatabaseNames files input path EntryIncludes q

/-- The source files that a project names; list files name none. -/
def Sources (files : FileTree) (input : String) (found : Option String) (q : String) : Prop :=
  found.elim False fun path => DatabaseNames files input path EntrySource q

/-- The path that a directory of sources comes from: one that a list file adds, a usual one, or a
source file in the directory. -/
inductive Homes (files : FileTree) (input root : String) (found : Option String) :
    String → String → Prop
  | added {text : List Char} {q x : String} : found = none →
    listText? files (listFile root) = some text → q ∈ subdirectoryPaths root text →
    files.resolve q = .ok x → files.isDirectory x = .ok true → Homes files input root found q x
  | usual {name x : String} : found = none → name ∈ usualDirectories →
    files.isDirectory (Path.below root name) = .ok true →
    files.resolve (Path.below root name) = .ok x →
    Homes files input root found (Path.below root name) x
  | source {q f : String} : Sources files input found q → files.resolve q = .ok f →
    files.isPresent f = .ok true → Homes files input root found q (Path.parent f)

/-- What is discovered is gathered from the database that was found or else from the list files,
nothing twice, and every directory of sources comes from a path. -/
theorem discover_spec {p : CmakeProject}
    (h : (discover files input directory).run st = (.ok p, st')) :
    ∃ root found, files.resolve directory = .ok root ∧
      findDatabase files root buildDirectories = .ok found ∧
      Gathered files (Includes files input root found) (Sources files input found) p ∧ Distinct p ∧
      ∀ x ∈ p.sourceDirectories, ∃ q, Homes files input root found q x := by
  obtain ⟨root, hroot, h⟩ := Task.ofExcept_bind_eq_ok h
  obtain ⟨found, hfound, h⟩ := Task.ofExcept_bind_eq_ok h
  refine ⟨root, found, hroot, hfound, ?_⟩
  cases found with
  | none =>
    obtain ⟨_, mid, _, h⟩ := Task.run_bind_eq_ok h
    obtain ⟨hgathered, hdistinct, hhome⟩ := ofListFiles_spec h
    refine ⟨hgathered, hdistinct, fun x hx => ?_⟩
    rcases hhome x hx with ⟨text, ht, q, hq, hr, hd⟩ | ⟨name, hname, hd, hr⟩
    · exact ⟨q, .added rfl ht hq hr hd⟩
    · exact ⟨_, .usual rfl hname hd hr⟩
  | some path =>
    obtain ⟨_, mid, _, h⟩ := Task.run_bind_eq_ok h
    obtain ⟨hgathered, hdistinct, hhome⟩ := ofDatabase_spec h
    refine ⟨hgathered, hdistinct, fun x hx => ?_⟩
    obtain ⟨f, hf, rfl⟩ := hhome x hx
    obtain ⟨hp, q, hq, hr⟩ := hgathered.sources f hf
    exact ⟨q, .source hq hr hp⟩

/-- How the paths of a project stand in the file tree. Each is what a path of the project resolves
to; where nothing hinders the resolution, there is no link left in it. -/
structure Grounded (files : FileTree) (input root : String) (found : Option String)
    (p : CmakeProject) : Prop where
  distinct : Distinct p
  absolute : ∀ x ∈ p.includePaths ++ p.sourceDirectories ++ p.sourceFiles,
    Path.isAbsolute x = true ∧ Path.Normal x
  includes : ∀ x ∈ p.includePaths, files.isDirectory x = .ok true ∧
    ∃ q, Includes files input root found q ∧ files.resolve q = .ok x ∧
      (files.Unhindered q → files.PlacedAt x .directory)
  sources : ∀ x ∈ p.sourceFiles, files.isPresent x = .ok true ∧
    ∃ q, Sources files input found q ∧ files.resolve q = .ok x ∧
      (files.Unhindered q → ∃ e, files.PlacedAt x e)
  /-- Only a usual directory, whose existence is not asked for again, may be missing. -/
  directories : ∀ x ∈ p.sourceDirectories, ∃ q, Homes files input root found q x ∧
    (files.isDirectory x = .ok true ∨
      ∃ name ∈ usualDirectories, q = Path.below root name ∧ files.resolve q = .ok x) ∧
    (files.Unhindered q → files.isDirectory x = .ok true ∧ files.PlacedAt x .directory)
  args : ∀ x ∈ p.compilerArgs, x.startsWith "-D" = true

variable {root : String} {found : Option String} {q x : String}

theorem Homes.normal (h : Homes files input root found q x) :
    Path.isAbsolute x = true ∧ Path.Normal x := by
  cases h with
  | added _ _ _ hr _ | usual _ _ _ hr => exact (FileTree.normal_resolve hr).symm
  | @source _ f _ hr hp =>
    obtain ⟨hnormal, habsolute⟩ := FileTree.normal_resolve hr
    obtain ⟨k, parts, hk, hspelt⟩ := Path.exists_spelt hnormal habsolute
    have hparent := hspelt.parent hk
    have hroot : Path.isAbsolute (Path.parent f) = true := by
      rw [hparent.isAbsolute]
      simpa using hk
    have hne : Path.parent f ≠ "" := fun hempty => by
      have hzero := (hparent.eq_empty.mp hempty).1
      omega
    exact ⟨hroot, hparent.normal hne⟩

theorem Homes.isDirectory (h : Homes files input root found q x) :
    files.isDirectory x = .ok true ∨
      ∃ name ∈ usualDirectories, q = Path.below root name ∧ files.resolve q = .ok x := by
  cases h with
  | added _ _ _ _ hd => exact .inl hd
  | usual _ hname _ hr => exact .inr ⟨_, hname, rfl, hr⟩
  | source _ hr hp => exact .inl (FileTree.isDirectory_parent hr hp)

theorem isName_of_usual {name : String} (h : name ∈ usualDirectories) : Path.IsName name := by
  simp only [usualDirectories, List.mem_cons, List.not_mem_nil, or_false] at h
  rcases h with rfl | rfl | rfl <;> exact ⟨by decide, by decide, by decide, by decide⟩

theorem Homes.placed (h : Homes files input root found q x)
    (hcwd : files.Placed files.cwd .directory) (hroot : files.resolve directory = .ok root)
    (hq : files.Unhindered q) :
    files.isDirectory x = .ok true ∧ files.PlacedAt x .directory := by
  cases h with
  | added _ _ _ hr hd => exact ⟨hd, hq.placedAt_directory hcwd hr hd⟩
  | @usual name _ _ hname hd hr =>
    obtain ⟨hnormal, habsolute⟩ := FileTree.normal_resolve hroot
    obtain ⟨k, parts, hk, hspelt⟩ := Path.exists_spelt hnormal habsolute
    have hp := isName_of_usual hname
    have hjoin := hspelt.join hp
    have hbelow := hspelt.below hk hp
    have hne : Path.join root name ≠ "" := fun hempty => by
      have hzero := (hjoin.eq_empty.mp hempty).1
      omega
    rw [hbelow] at hq hd hr
    have hstart : Path.isAbsolute (Path.join root name) = true := by
      rw [hjoin.isAbsolute]
      simpa using hk
    have hx := hq.isDirectory hcwd (hjoin.tidy hne) hstart hr hd
    exact ⟨hx, hq.placedAt_directory hcwd hr hx⟩
  | source _ hr hp =>
    obtain ⟨e, hplaced⟩ := hq.placedAt_present hcwd hr hp
    exact ⟨FileTree.isDirectory_parent hr hp, hplaced.parent hcwd⟩

theorem Gathered.grounded {p : CmakeProject}
    (h : Gathered files (Includes files input root found) (Sources files input found) p)
    (hd : Distinct p)
    (hhomes : ∀ x ∈ p.sourceDirectories, ∃ q, Homes files input root found q x)
    (hcwd : files.Placed files.cwd .directory) (hroot : files.resolve directory = .ok root) :
    Grounded files input root found p where
  distinct := hd
  absolute x hx := by
    rcases List.mem_append.mp hx with hx | hx
    · rcases List.mem_append.mp hx with hx | hx
      · obtain ⟨_, q, _, hr⟩ := h.includes x hx
        exact (FileTree.normal_resolve hr).symm
      · obtain ⟨q, hq⟩ := hhomes x hx
        exact hq.normal
    · obtain ⟨_, q, _, hr⟩ := h.sources x hx
      exact (FileTree.normal_resolve hr).symm
  includes x hx := by
    obtain ⟨hd, q, hq, hr⟩ := h.includes x hx
    exact ⟨hd, q, hq, hr, fun hu => hu.placedAt_directory hcwd hr hd⟩
  sources x hx := by
    obtain ⟨hp, q, hq, hr⟩ := h.sources x hx
    exact ⟨hp, q, hq, hr, fun hu => hu.placedAt_present hcwd hr hp⟩
  directories x hx := by
    obtain ⟨q, hq⟩ := hhomes x hx
    exact ⟨q, hq, hq.isDirectory, hq.placed hcwd hroot⟩
  args := h.args

end Project

end Cmake

namespace Settings

open Cmake

section Validate

variable {σ : Type} [HasLog σ] {files : FileTree} {xs : List String}

theorem absentPaths_eq_nil (h : ∀ x ∈ xs, files.isPresent (Path.tidy x) = .ok true) :
    absentPaths files (xs.map .text) = .ok [] := by
  induction xs with
  | nil => rfl
  | cons x xs ih =>
    have hrest := ih fun y hy => h y (List.mem_cons_of_mem x hy)
    refine except_bind_eq_ok.mpr ⟨x, rfl, except_bind_eq_ok.mpr
      ⟨true, h x List.mem_cons_self, ?_⟩⟩
    exact hrest

theorem run_warnIncludes (h : ∀ x ∈ xs, files.isPresent (Path.tidy x) = .ok true) (st : σ) :
    (warnIncludes files (xs.map .text)).run st = (.ok (), st) := by
  induction xs with
  | nil => rfl
  | cons x xs ih =>
    have hrest := ih fun y hy => h y (List.mem_cons_of_mem x hy)
    have hx := h x List.mem_cons_self
    rw [List.map_cons, warnIncludes, Value.asText, Task.ofExcept_ok_bind, hx, Task.ofExcept_ok_bind]
    exact hrest

theorem tidy_of_normal {x : String} (hx : Path.isAbsolute x = true ∧ Path.Normal x) :
    Path.tidy x = x := by
  obtain ⟨k, parts, hk, hspelt⟩ := Path.exists_spelt hx.2 hx.1
  refine hspelt.tidy fun hempty => ?_
  have hzero := (hspelt.eq_empty.mp hempty).1
  omega

/-- Settings whose paths are all there are accepted without a word. -/
theorem run_validate_ofProject {p : CmakeProject}
    (h : ∀ x ∈ p.includePaths ++ p.sourceDirectories ++ p.sourceFiles,
      files.isPresent (Path.tidy x) = .ok true) (st : σ) :
    ((ofProject p).validate files).run st = (.ok [], st) := by
  have hincludes : (warnIncludes files (p.includePaths.map .text)).run st = (.ok (), st) :=
    run_warnIncludes (fun x hx => h x (by simp [hx])) st
  have hdirs : absentPaths files (p.sourceDirectories.map .text) = .ok [] :=
    absentPaths_eq_nil fun x hx => h x (by simp [hx])
  have hsources : absentPaths files (p.sourceFiles.map .text) = .ok [] :=
    absentPaths_eq_nil fun x hx => h x (by simp [hx])
  refine (Task.run_ofExcept_bind rfl _ st).trans ?_
  refine (Task.run_ofExcept_bind rfl _ st).trans ?_
  refine (Task.run_bind_ok hincludes).trans ?_
  refine (Task.run_ofExcept_bind hdirs _ st).trans ?_
  exact Task.run_ofExcept_bind hsources _ st

end Validate

variable {w w' : Workspace} {input directory : String} {output : Option String} {s : Settings}

theorem exists_run_discover (h : (ofCmake input directory output).run w = (.ok s, w')) :
    ∃ p mid, (discover w.files input directory).run w = (.ok p, mid) ∧ s = ofProject p := by
  obtain ⟨_, _, hget, h⟩ := Task.run_bind_eq_ok h
  cases hget
  obtain ⟨p, mid, hp, h⟩ := Task.run_bind_eq_ok h
  refine ⟨p, mid, hp, ?_⟩
  cases output with
  | none =>
    cases h
    rfl
  | some path =>
    dsimp only at h
    split at h
    next =>
      obtain ⟨_, _, _, h⟩ := Task.run_bind_eq_ok h
      cases h
      rfl
    next =>
      cases h
      rfl

theorem exists_run_ofCmake (w : Workspace) {p : CmakeProject}
    (h : ((discover w.files input directory).run w).1 = .ok p) :
    ∃ w', (ofCmake input directory none).run w = (.ok (ofProject p), w') := by
  obtain ⟨mid, hrun⟩ := Task.exists_run_eq h
  refine ⟨mid, ?_⟩
  rw [ofCmake, Task.run_bind_ok (Task.run_get w), Task.run_bind_ok hrun]
  rfl

/-- Settings that are made for a project hold no path twice, and each path is what one of the
project's paths resolves to. Include paths and source files are there. So are the source
directories, and the settings are accepted without a word, unless the resolution of a usual source
directory is hindered. -/
theorem ofCmake_grounded (hcwd : w.files.Placed w.files.cwd .directory)
    (h : (ofCmake input directory output).run w = (.ok s, w')) :
    ∃ root found p, w.files.resolve directory = .ok root ∧
      findDatabase w.files root buildDirectories = .ok found ∧ s = ofProject p ∧
      Grounded w.files input root found p ∧
      ((∀ name ∈ usualDirectories, ∀ x ∈ p.sourceDirectories,
          w.files.resolve (Path.below root name) = .ok x →
          w.files.Unhindered (Path.below root name)) →
        ∀ log : Log, (s.validate w.files).run log = (.ok [], log)) := by
  obtain ⟨p, mid, hp, rfl⟩ := exists_run_discover h
  obtain ⟨root, found, hroot, hfound, hgathered, hdistinct, hhomes⟩ := discover_spec hp
  have hgrounded := hgathered.grounded hdistinct hhomes hcwd hroot
  refine ⟨root, found, p, hroot, hfound, rfl, hgrounded, fun husual log => ?_⟩
  refine run_validate_ofProject (fun x hx => ?_) log
  rw [tidy_of_normal (hgrounded.absolute x hx)]
  rcases List.mem_append.mp hx with hx | hx
  · rcases List.mem_append.mp hx with hx | hx
    · exact FileTree.isPresent_of_isDirectory (hgrounded.includes x hx).1
    · obtain ⟨q, hq, hd | ⟨name, hname, rfl, hr⟩, hu⟩ :=
        hgrounded.directories x hx
      · exact FileTree.isPresent_of_isDirectory hd
      · exact FileTree.isPresent_of_isDirectory (hu (husual name hname x hx hr)).1
  · exact (hgrounded.sources x hx).1

end Settings

namespace SampleProject

open Settings Cmake FileTree

/-- A root directory with a list file and a few other entries. -/
def listed (text : String) (entries : List (List String × Entry)) : FileTree where
  entries := [([], .directory), (["CMakeLists.txt"], .file (.bytes text.toUTF8.toList))] ++ entries

/-- The source directory is a link. -/
def linked : FileTree :=
  listed "include_directories(src)\nadd_compile_definitions(A)\n"
    [(["real"], .directory), (["src"], .link "real")]

theorem unhindered_usual {name : String} (h : name ∈ usualDirectories) :
    linked.Unhindered (Path.below "/" name) := by
  have hpath : ∀ name ∈ usualDirectories,
      (if Path.isAbsolute (Path.tidy (Path.below "/" name)) then "/" else "") = "/" ∧
        Path.pieces (Path.tidy (Path.below "/" name)) = ["", name] := by
    decide +kernel
  have hfree : ∀ name ∈ ["real", "source", "lib"], (Path.join "/" name).utf8ByteSize < 4096 ∧
      linked.linkAt? (Path.join "/" name) = none := by
    decide +kernel
  have hlink : linked.linkAt? (Path.join "/" "src") = some "real" := by decide +kernel
  have hreal : linked.Traces [(Path.join "/" "src", none)] "/" ["real"] (Path.join "/" "real")
      [(Path.join "/" "src", none)] :=
    .name ⟨by decide, by decide, by decide, by decide⟩ (hfree "real" (by decide)).1
      (hfree "real" (by decide)).2 (.done _ _)
  have hname := isName_of_usual h
  rw [Unhindered, (hpath name h).1, (hpath name h).2]
  simp only [usualDirectories, List.mem_cons, List.not_mem_nil, or_false] at h
  rcases h with rfl | rfl | rfl
  · exact ⟨_, _, .stay (.inl rfl) (.follow hname hlink rfl hreal (.done _ _))⟩
  · exact ⟨_, _, .stay (.inl rfl) (.name hname (hfree _ (by decide)).1 (hfree _ (by decide)).2
      (.done _ _))⟩
  · exact ⟨_, _, .stay (.inl rfl) (.name hname (hfree _ (by decide)).1 (hfree _ (by decide)).2
      (.done _ _))⟩

theorem linked_grounded : linked.Placed linked.cwd .directory ∧ ∃ w',
    (ofCmake "" "/" none).run { files := linked } = (.ok (ofProject
      { includePaths := ["/real"], sourceDirectories := ["/real"], compilerArgs := ["-DA"] }), w') ∧
    ∀ log : Log, ((ofProject
      { includePaths := ["/real"], sourceDirectories := ["/real"],
        compilerArgs := ["-DA"] }).validate linked).run log = (.ok [], log) := by
  have hcwd : linked.Placed linked.cwd .directory :=
    ⟨rfl, by simp, by simp [linked, listed], by simp [linked, listed]⟩
  have hrun : ((discover linked "" "/").run { files := linked : Workspace }).1 = .ok
      { includePaths := ["/real"], sourceDirectories := ["/real"], compilerArgs := ["-DA"] } := by
    decide +kernel
  obtain ⟨w', hrun⟩ := exists_run_ofCmake { files := linked } hrun
  have hroot : linked.resolve "/" = .ok "/" := by decide +kernel
  obtain ⟨root, found, p, hr, _, _, _, hvalid⟩ := ofCmake_grounded hcwd hrun
  cases hroot.symm.trans hr
  exact ⟨hcwd, w', hrun, hvalid fun name hname _ _ _ => unhindered_usual hname⟩

/-- The include path leads through a link to itself and back. -/
def looped : FileTree :=
  listed "include_directories(loop/../src)\n"
    [(["loop"], .link "loop"), (["real"], .directory), (["src"], .link "real")]

/-- Behind such a link nothing is resolved any more. -/
theorem looped_include_unresolved : looped.linkAt? "/src" = some "real" ∧ ∃ w',
    (ofCmake "" "/" none).run { files := looped } = (.ok (ofProject
      { includePaths := ["/src"], sourceDirectories := ["/real"] }), w') := by
  have hrun : ((discover looped "" "/").run { files := looped : Workspace }).1 = .ok
      { includePaths := ["/src"], sourceDirectories := ["/real"] } := by
    decide +kernel
  exact ⟨by decide +kernel, exists_run_ofCmake { files := looped } hrun⟩

end SampleProject

end NPlusOne
