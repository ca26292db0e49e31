import NPlusOne.Cmake.ListFile
import NPlusOne.Proofs.CompileEntries
import NPlusOne.Proofs.SortedTexts

namespace NPlusOne

namespace Task

variable {σ α β : Type}

/-- From this state the task gives a result. -/
def Returns (task : Task σ α) (st : σ) : Prop :=
  ∃ a, (task.run st).1 = .ok a

theorem exists_run_eq {task : Task σ α} {st : σ} {a : α} (h : (task.run st).1 = .ok a) :
    ∃ st', task.run st = (.ok a, st') :=
  ⟨_, Prod.ext h rfl⟩

theorem returns_iff {task : Task σ α} {st : σ} :
    Returns task st ↔ ∃ a st', task.run st = (.ok a, st') :=
  ⟨fun ⟨a, h⟩ => ⟨a, exists_run_eq h⟩, fun ⟨a, _, h⟩ => ⟨a, congrArg Prod.fst h⟩⟩

theorem returns_bind {x : Task σ α} {f : α → Task σ β} {st : σ} :
    Returns (x >>= f) st ↔ ∃ a mid, x.run st = (.ok a, mid) ∧ Returns (f a) mid := by
  constructor
  · intro h
    obtain ⟨b, st', h⟩ := returns_iff.mp h
    obtain ⟨a, mid, hx, hf⟩ := run_bind_eq_ok h
    exact ⟨a, mid, hx, returns_iff.mpr ⟨b, st', hf⟩⟩
  · rintro ⟨a, mid, hx, b, hf⟩
    exact ⟨b, by rw [run_bind_ok hx, hf]⟩

theorem returns_pure (a : α) (st : σ) : Returns (pure a) st :=
  ⟨a, rfl⟩

theorem returns_bind_pure {x : Task σ α} {g : α → β} {st : σ} :
    Returns (x >>= fun a => pure (g a)) st ↔ Returns x st := by
  rw [returns_bind, returns_iff]
  exact exists_congr fun a => exists_congr fun mid => and_iff_left (returns_pure _ _)

theorem returns_ofExcept_bind {r : Except Failure α} {f : α → Task σ β} {st : σ} :
    Returns (ofExcept r >>= f) st ↔ ∃ a, r = .ok a ∧ Returns (f a) st := by
  cases r with
  | error e =>
    refine iff_of_false ?_ (by simp)
    rintro ⟨_, h⟩
    cases h
  | ok a => simp [ofExcept_ok_bind]

theorem returns_write_bind [HasLog σ] {level : Log.Level} {channel : Log.Channel} {text : String}
    {task : Task σ β} {st : σ} : Returns (Log.write level channel text >>= fun _ => task) st ↔
      Returns task (HasLog.append ⟨level, channel, text⟩ st) := by
  have hwrite : (Log.write level channel text : Task σ Unit).run st =
    (.ok (), HasLog.append ⟨level, channel, text⟩ st) := rfl
  rw [Returns, run_bind_ok hwrite]
  rfl

theorem returns_mapM {f : α → Task σ β} {P : α → Prop} {xs : List α} {st : σ}
    (h : ∀ a ∈ xs, ∀ st, Returns (f a) st ↔ P a) :
    Returns (xs.mapM f) st ↔ ∀ a ∈ xs, P a := by
  induction xs generalizing st with
  | nil => exact ⟨fun _ _ hm => (by cases hm), fun _ => returns_pure _ _⟩
  | cons x xs ih =>
    have hrest := fun a hm => h a (List.mem_cons_of_mem x hm)
    rw [List.mapM_cons, returns_bind, List.forall_mem_cons, ← h x List.mem_cons_self st,
      returns_iff]
    constructor
    · rintro ⟨a, mid, hx, hreturns⟩
      exact ⟨⟨a, mid, hx⟩, (ih hrest).mp (returns_bind_pure.mp hreturns)⟩
    · rintro ⟨⟨a, mid, hx⟩, hall⟩
      exact ⟨a, mid, hx, returns_bind_pure.mpr ((ih hrest).mpr hall)⟩

theorem mem_of_run_mapM {f : α → Task σ β} {xs : List α} {bs : List β} {st st' : σ}
    (h : (xs.mapM f).run st = (.ok bs, st')) {b : β} (hb : b ∈ bs) :
    ∃ a ∈ xs, ∃ before after, (f a).run before = (.ok b, after) := by
  induction xs generalizing st bs with
  | nil =>
    cases h
    cases hb
  | cons x xs ih =>
    rw [List.mapM_cons] at h
    obtain ⟨c, mid, hx, h⟩ := run_bind_eq_ok h
    obtain ⟨cs, last, hxs, h⟩ := run_bind_eq_ok h
    cases h
    rcases List.mem_cons.mp hb with rfl | hb
    · exact ⟨x, List.mem_cons_self, st, mid, hx⟩
    · obtain ⟨a, hm, hrun⟩ := ih hxs hb
      exact ⟨a, List.mem_cons_of_mem x hm, hrun⟩

end Task

namespace Cmake

variable {σ : Type} [HasLog σ] {files : FileTree} {root base : String} {st st' : σ}

theorem takeDirectory_returns {item : String} :
    Task.Returns (takeDirectory files item (files.resolve (Path.below base item))) st ↔
      Passes files (Path.below base item) := by
  rw [passes_iff]
  cases hr : files.resolve (Path.below base item) with
  | ok real =>
    rw [takeDirectory]
    simp only [reduceCtorEq, or_self, false_or, Except.ok.injEq]
    constructor
    · intro h
      obtain ⟨b, hb, _⟩ := Task.returns_ofExcept_bind.mp h
      exact ⟨real, b, rfl, hb⟩
    · rintro ⟨_, b, rfl, hb⟩
      refine Task.returns_ofExcept_bind.mpr ⟨b, hb, ?_⟩
      cases b <;> exact Task.returns_pure _ _
  | error e =>
    cases FileTree.resolve_error hr with
    | null => exact iff_of_true ⟨[], rfl⟩ (by simp)
    | encoding => exact iff_of_true ⟨[], rfl⟩ (by simp)
    | depth =>
      refine iff_of_false ?_ (by simp)
      rintro ⟨_, h⟩
      cases h
    | loop =>
      refine iff_of_false ?_ (by simp)
      rintro ⟨_, h⟩
      cases h

theorem existingDirectories_returns {items : List String} :
    Task.Returns (existingDirectories files base items) st ↔
      ∀ item ∈ items, Passes files (Path.below base item) := by
  rw [existingDirectories, Task.returns_bind_pure]
  exact Task.returns_mapM fun _ _ _ => takeDirectory_returns

theorem mem_takeDirectory {item x : String} {found : List String} {outcome : Except Failure String}
    (h : (takeDirectory files item outcome).run st = (.ok found, st')) (hx : x ∈ found) :
    outcome = .ok x ∧ files.isDirectory x = .ok true := by
  cases outcome with
  | ok real =>
    rw [takeDirectory] at h
    obtain ⟨b, hb, h⟩ := Task.ofExcept_bind_eq_ok h
    cases b with
    | false =>
      cases h
      cases hx
    | true =>
      cases h
      obtain rfl := List.mem_singleton.mp hx
      exact ⟨rfl, hb⟩
  | error e =>
    unfold takeDirectory at h
    split at h
    next heq => cases heq
    next =>
      cases h
      cases hx
    next =>
      cases h
      cases hx
    next => cases h

theorem mem_existingDirectories {items found : List String} {x : String}
    (h : (existingDirectories files base items).run st = (.ok found, st')) (hx : x ∈ found) :
    ∃ item ∈ items, files.resolve (Path.below base item) = .ok x ∧
      files.isDirectory x = .ok true := by
  rw [existingDirectories] at h
  obtain ⟨founds, mid, hmap, h⟩ := Task.run_bind_eq_ok h
  cases h
  obtain ⟨each, heach, hx⟩ := List.mem_flatten.mp hx
  obtain ⟨item, hm, before, after, hrun⟩ := Task.mem_of_run_mapM hmap heach
  exact ⟨item, hm, mem_takeDirectory hrun hx⟩

/-- A path that an include command of a list file names. -/
def CommandsName (root base : String) (text : List Char) (path : String) : Prop :=
  ∃ c ∈ includeCommands text, ∃ item ∈ operandsIn (expand root base c.operands),
    path = Path.below base item

theorem addCommands_returns {text : List Char} {p : CmakeProject} :
    Task.Returns (addCommands files root base text p) st ↔
      ∀ path, CommandsName root base text path → Passes files path := by
  have hcommands : Task.Returns ((includeCommands text).mapM fun c =>
      directoriesIn files root base c.operands) st ↔ ∀ c ∈ includeCommands text,
        ∀ item ∈ operandsIn (expand root base c.operands), Passes files (Path.below base item) :=
    Task.returns_mapM fun _ _ _ => existingDirectories_returns
  rw [addCommands, Task.returns_bind_pure, hcommands]
  constructor
  · rintro h _ ⟨c, hc, item, hi, rfl⟩
    exact h c hc item hi
  · exact fun h c hc item hi => h _ ⟨c, hc, item, hi, rfl⟩

theorem startsWith_of_mem_definitionsIn {text : List Char} {x : String}
    (h : x ∈ definitionsIn text) : x.startsWith "-D" = true := by
  obtain ⟨item, _, rfl⟩ := List.mem_map.mp h
  split
  next hlead => exact hlead
  next =>
    rw [String.startsWith_string_iff, String.toList_append]
    exact List.prefix_append _ _

/-- The commands of a list file add what they name and nothing else. -/
theorem Gathered.addCommands {named sources : String → Prop} {text : List Char}
    {p p' : CmakeProject} (hp : Gathered files named sources p)
    (hn : ∀ q, CommandsName root base text q → named q)
    (h : (Cmake.addCommands files root base text p).run st = (.ok p', st')) :
    Gathered files named sources p' ∧ p'.sourceFiles = p.sourceFiles := by
  obtain ⟨includes, mid, hmap, h⟩ := Task.run_bind_eq_ok h
  cases h
  refine ⟨⟨fun x hx => ?_, hp.sources, fun x hx => ?_⟩, rfl⟩
  · rcases List.mem_append.mp hx with hx | hx
    · exact hp.includes x hx
    · obtain ⟨found, hfound, hx⟩ := List.mem_flatten.mp hx
      obtain ⟨c, hc, before, after, hrun⟩ := Task.mem_of_run_mapM hmap hfound
      obtain ⟨item, hi, hr, hb⟩ := mem_existingDirectories hrun hx
      exact ⟨hb, _, hn _ ⟨c, hc, item, hi, rfl⟩, hr⟩
  · rcases List.mem_append.mp hx with hx | hx
    · exact hp.args x hx
    · obtain ⟨c, _, hx⟩ := List.mem_flatMap.mp hx
      exact startsWith_of_mem_definitionsIn hx

/-- The text of the list file at a path, if there is one that can be read. -/
def listText? (files : FileTree) (path : String) : Option (List Char) :=
  (files.read path).toOption.map fun data => Text.unifyNewlines (Utf8.decodeDropping data)

end Cmake

namespace FileTree

variable {t : FileTree} {p : String}

theorem read_of_absent (h : t.isPresent p = .ok false) : ∃ e, t.read p = .error e := by
  have hnot : ¬ ∃ data, t.read p = .ok data := by
    rintro ⟨data, hr⟩
    obtain ⟨_, hcheck, hr⟩ := except_bind_eq_ok.mp hr
    unfold isPresent asks at h
    rw [checkPath_eq_ok.mp hcheck] at h
    cases hlook : t.look p with
    | ok found => simp [hlook] at h
    | error e =>
      rw [hlook] at hr
      cases hr
  cases hr : t.read p with
  | ok data => exact absurd ⟨data, hr⟩ hnot
  | error e => exact ⟨e, rfl⟩

theorem read_of_present {e : Failure} (h : t.isPresent p = .ok true) (hr : t.read p = .error e) :
    ∃ reason, e = .path reason := by
  obtain ⟨hask, ⟨names, entry⟩, hlook⟩ := isPresent_eq_true.mp h
  obtain hcheck | ⟨_, _, hr⟩ := except_bind_eq_error.mp hr
  · rw [checkPath_eq_ok.mpr hask] at hcheck
    cases hcheck
  · rw [hlook] at hr
    cases entry with
    | file content => cases content <;> cases hr
    | directory | link =>
      cases hr
      exact ⟨_, rfl⟩

end FileTree

namespace Cmake

variable {σ : Type} [HasLog σ] {files : FileTree} {root base : String} {st st' : σ}

theorem readListFile_returns {path : String} :
    Task.Returns (readListFile files path) st ↔ ∃ b, files.isPresent path = .ok b := by
  rw [readListFile, Task.returns_ofExcept_bind]
  constructor
  · rintro ⟨b, hb, _⟩
    exact ⟨b, hb⟩
  · rintro ⟨b, hb⟩
    refine ⟨b, hb, ?_⟩
    cases b with
    | false => exact Task.returns_pure _ _
    | true =>
      rw [if_neg (by simp)]
      cases hr : files.read path with
      | ok data => exact Task.returns_pure _ _
      | error e =>
        obtain ⟨reason, rfl⟩ := FileTree.read_of_present hb hr
        exact ⟨none, rfl⟩

theorem eq_listText? {path : String} {text : Option (List Char)}
    (h : (readListFile files path).run st = (.ok text, st')) : text = listText? files path := by
  rw [readListFile] at h
  obtain ⟨b, hb, h⟩ := Task.ofExcept_bind_eq_ok h
  cases b with
  | false =>
    obtain ⟨e, hr⟩ := FileTree.read_of_absent hb
    cases h
    rw [listText?, hr]
    rfl
  | true =>
    rw [if_neg (by simp)] at h
    cases hr : files.read path with
    | ok data =>
      rw [hr] at h
      cases h
      rw [listText?, hr]
      rfl
    | error e =>
      obtain ⟨reason, rfl⟩ := FileTree.read_of_present hb hr
      rw [hr] at h
      cases h
      rw [listText?, hr]
      rfl

/-- The list file of a directory. -/
def listFile (dir : String) : String :=
  Path.below dir listFileName

/-- A list file below the root, if it is there, can be asked for and names only paths that can be
taken. -/
def ListFits (files : FileTree) (root dir : String) : Prop :=
  (∃ b, files.isPresent (listFile dir) = .ok b) ∧
    ∀ text, listText? files (listFile dir) = some text →
      ∀ path, CommandsName root dir text path → Passes files path

/-- The subdirectories are worked off exactly if the list file of each can be. -/
theorem addSubdirectories_returns {dirs : List String} {p : CmakeProject} :
    Task.Returns (addSubdirectories files root dirs p) st ↔
      ∀ dir ∈ dirs, ListFits files root dir := by
  induction dirs generalizing p st with
  | nil => exact iff_of_true (Task.returns_pure _ _) (by simp)
  | cons dir dirs ih =>
    rw [addSubdirectories, Task.returns_bind, List.forall_mem_cons]
    constructor
    · rintro ⟨text, mid, hread, h⟩
      have hreturns := readListFile_returns.mp (Task.returns_iff.mpr ⟨text, mid, hread⟩)
      have htext := eq_listText? hread
      cases text with
      | none =>
        refine ⟨⟨hreturns, fun text ht => ?_⟩, ih.mp h⟩
        cases htext.trans ht
      | some text =>
        obtain ⟨p', last, hadd, h⟩ := Task.returns_bind.mp h
        refine ⟨⟨hreturns, fun text' ht => ?_⟩, ih.mp h⟩
        cases htext.trans ht
        exact addCommands_returns.mp (Task.returns_iff.mpr ⟨p', last, hadd⟩)
    · rintro ⟨⟨hpresent, hfits⟩, hrest⟩
      have hreturns : Task.Returns (readListFile files (listFile dir)) st :=
        readListFile_returns.mpr hpresent
      obtain ⟨text, mid, hread⟩ := Task.returns_iff.mp hreturns
      refine ⟨text, mid, hread, ?_⟩
      have htext := eq_listText? hread
      cases text with
      | none => exact ih.mpr hrest
      | some text =>
        have hcommands : Task.Returns (addCommands files root dir text p) mid :=
          addCommands_returns.mpr (hfits text htext.symm)
        obtain ⟨p', last, hadd⟩ := Task.returns_iff.mp hcommands
        exact Task.returns_bind.mpr ⟨p', last, hadd, ih.mpr hrest⟩

theorem Gathered.addSubdirectories {named sources : String → Prop} {dirs : List String}
    {p p' : CmakeProject} (hp : Gathered files named sources p)
    (hn : ∀ dir ∈ dirs, ∀ text, listText? files (listFile dir) = some text →
      ∀ q, CommandsName root dir text q → named q)
    (h : (Cmake.addSubdirectories files root dirs p).run st = (.ok p', st')) :
    Gathered files named sources p' ∧ p'.sourceFiles = p.sourceFiles := by
  induction dirs generalizing p st with
  | nil =>
    cases h
    exact ⟨hp, rfl⟩
  | cons dir dirs ih =>
    have hrest := fun other hm => hn other (List.mem_cons_of_mem dir hm)
    rw [Cmake.addSubdirectories] at h
    obtain ⟨text, mid, hread, h⟩ := Task.run_bind_eq_ok h
    cases text with
    | none => exact ih hp hrest h
    | some text =>
      obtain ⟨next, last, hadd, h⟩ := Task.run_bind_eq_ok h
      obtain ⟨hnext, hsame⟩ := hp.addCommands
        (hn dir List.mem_cons_self text (eq_listText? hread).symm) hadd
      obtain ⟨hp', hsame'⟩ := ih hnext hrest h
      exact ⟨hp', hsame'.trans hsame⟩

theorem directory?_eq_ok {path : String} {found : Option String} :
    directory? files path = .ok found ↔ ∃ real b, files.resolve path = .ok real ∧
      files.isDirectory real = .ok b ∧ found = if b then some real else none := by
  constructor
  · intro h
    obtain ⟨real, hr, h⟩ := except_bind_eq_ok.mp h
    obtain ⟨b, hb, h⟩ := except_bind_eq_ok.mp h
    refine ⟨real, b, hr, hb, ?_⟩
    cases b <;> cases h <;> rfl
  · rintro ⟨real, b, hr, hb, rfl⟩
    refine except_bind_eq_ok.mpr ⟨real, hr, except_bind_eq_ok.mpr ⟨b, hb, ?_⟩⟩
    cases b <;> rfl

theorem directories_returns {paths : List String} :
    (∃ found, paths.mapM (directory? files) = .ok found) ↔ ∀ path ∈ paths, ∃ real,
      files.resolve path = .ok real ∧ files.look real ≠ .error .nameTooLong := by
  induction paths with
  | nil => exact iff_of_true ⟨[], rfl⟩ (by simp)
  | cons path paths ih =>
    rw [List.forall_mem_cons, ← ih]
    simp only [List.mapM_cons, except_bind_eq_ok]
    constructor
    · rintro ⟨_, found, hpath, founds, hpaths, _⟩
      obtain ⟨real, b, hr, hb, _⟩ := directory?_eq_ok.mp hpath
      have hlook := (FileTree.asks_returns (FileTree.resolve_eq_ok hr).1).mp ⟨b, hb⟩
      exact ⟨⟨real, hr, hlook⟩, founds, hpaths⟩
    · rintro ⟨⟨real, hr, hlook⟩, founds, hpaths⟩
      obtain ⟨b, hb⟩ := (FileTree.asks_returns (FileTree.resolve_eq_ok hr).1).mpr hlook
      exact ⟨_, _, directory?_eq_ok.mpr ⟨real, b, hr, hb, rfl⟩, founds, hpaths, rfl⟩

/-- Of the paths, those are kept that lead to a directory. -/
theorem mem_directories {paths : List String} {found : List (Option String)} {dir : String}
    (h : paths.mapM (directory? files) = .ok found) : dir ∈ found.filterMap id ↔
      ∃ path ∈ paths, files.resolve path = .ok dir ∧ files.isDirectory dir = .ok true := by
  induction paths generalizing found with
  | nil =>
    cases h
    simp
  | cons path paths ih =>
    rw [List.mapM_cons] at h
    obtain ⟨first, hfirst, h⟩ := except_bind_eq_ok.mp h
    obtain ⟨rest, hrest, h⟩ := except_bind_eq_ok.mp h
    cases h
    obtain ⟨real, b, hr, hb, rfl⟩ := directory?_eq_ok.mp hfirst
    have hcons : (∃ p ∈ path :: paths, files.resolve p = .ok dir ∧
        files.isDirectory dir = .ok true) ↔
        (files.resolve path = .ok dir ∧ files.isDirectory dir = .ok true) ∨
          ∃ p ∈ paths, files.resolve p = .ok dir ∧ files.isDirectory dir = .ok true := by
      simp
    rw [hcons, ← ih hrest]
    cases b with
    | false =>
      have hno : ¬ (files.resolve path = .ok dir ∧ files.isDirectory dir = .ok true) := by
        rintro ⟨hr', hb'⟩
        cases hr.symm.trans hr'
        cases hb.symm.trans hb'
      simp [hno]
    | true =>
      have hyes : (files.resolve path = .ok dir ∧ files.isDirectory dir = .ok true) ↔
          dir = real := by
        constructor
        · rintro ⟨hr', _⟩
          cases hr.symm.trans hr'
          rfl
        · rintro rfl
          exact ⟨hr, hb⟩
      simp [hyes]

theorem mem_firstDirectory {dirs found : List String} {x : String}
    (h : firstDirectory files root dirs = .ok found) (hx : x ∈ found) :
    ∃ dir ∈ dirs, files.isDirectory (Path.below root dir) = .ok true ∧
      files.resolve (Path.below root dir) = .ok x := by
  induction dirs with
  | nil =>
    cases h
    cases hx
  | cons dir dirs ih =>
    rw [firstDirectory] at h
    obtain ⟨b, hb, h⟩ := except_bind_eq_ok.mp h
    cases b with
    | true =>
      obtain ⟨real, hr, h⟩ := except_bind_eq_ok.mp h
      cases h
      cases List.mem_singleton.mp hx
      exact ⟨dir, List.mem_cons_self, hb, hr⟩
    | false =>
      obtain ⟨other, hm, ho⟩ := ih h
      exact ⟨other, List.mem_cons_of_mem dir hm, ho⟩

/-- The directories that a list file at the root adds. -/
def Subdirectory (files : FileTree) (root : String) (text : List Char) (dir : String) : Prop :=
  ∃ path ∈ subdirectoryPaths root text, files.resolve path = .ok dir ∧
    files.isDirectory dir = .ok true

/-- What list files must have for a project to be read from them. -/
def ListsFit (files : FileTree) (root : String) : Prop :=
  ListFits files root root ∧ ∀ text, listText? files (listFile root) = some text →
    (∀ path ∈ subdirectoryPaths root text, ∃ real, files.resolve path = .ok real ∧
      files.look real ≠ .error .nameTooLong) ∧
    (∀ dir, Subdirectory files root text dir → ListFits files root dir) ∧
    ((∀ dir, ¬ Subdirectory files root text dir) →
      ∃ dirs, firstDirectory files root usualDirectories = .ok dirs)

/-- The list file of the root gives a project exactly if the paths in it pass, those of
subdirectories can be resolved and looked at, their list files fit and, where there are none, the
usual directories can be looked for. -/
theorem ofRootFile_returns {text : List Char} :
    Task.Returns (ofRootFile files root text) st ↔
      (∀ path, CommandsName root root text path → Passes files path) ∧
      (∀ path ∈ subdirectoryPaths root text, ∃ real, files.resolve path = .ok real ∧
        files.look real ≠ .error .nameTooLong) ∧
      (∀ dir, Subdirectory files root text dir → ListFits files root dir) ∧
      ((∀ dir, ¬ Subdirectory files root text dir) →
        ∃ dirs, firstDirectory files root usualDirectories = .ok dirs) := by
  rw [ofRootFile, Task.returns_bind]
  constructor
  · rintro ⟨p, mid, hadd, h⟩
    obtain ⟨found, hmap, h⟩ := Task.returns_ofExcept_bind.mp h
    obtain ⟨p', last, hsub, h⟩ := Task.returns_bind.mp h
    obtain ⟨dirs, hdirs, _⟩ := Task.returns_ofExcept_bind.mp h
    refine ⟨addCommands_returns.mp (Task.returns_iff.mpr ⟨p, mid, hadd⟩),
      directories_returns.mp ⟨found, hmap⟩, fun dir hdir => ?_, fun hnone => ?_⟩
    · exact addSubdirectories_returns.mp (Task.returns_iff.mpr ⟨p', last, hsub⟩) dir
        ((mem_directories hmap).mpr hdir)
    · have hempty : found.filterMap id = [] :=
        List.eq_nil_iff_forall_not_mem.mpr fun dir hm => hnone dir ((mem_directories hmap).mp hm)
      rw [hempty] at hdirs
      exact ⟨dirs, hdirs⟩
  · rintro ⟨hcommands, hpaths, hbelow, husual⟩
    have hadd : Task.Returns (addCommands files root root text
        { name := projectName? text, standard := standard? text }) st :=
      addCommands_returns.mpr hcommands
    obtain ⟨p, mid, hadd⟩ := Task.returns_iff.mp hadd
    obtain ⟨found, hmap⟩ := directories_returns.mpr hpaths
    have hsub : Task.Returns (addSubdirectories files root (found.filterMap id) p) mid :=
      addSubdirectories_returns.mpr fun dir hm => hbelow dir ((mem_directories hmap).mp hm)
    obtain ⟨p', last, hsub⟩ := Task.returns_iff.mp hsub
    obtain ⟨dirs, hdirs⟩ : ∃ dirs,
        sourceDirectories files root (found.filterMap id) = .ok dirs := by
      unfold sourceDirectories
      split
      next hempty =>
        refine husual fun dir hdir => ?_
        have hm := (mem_directories hmap).mpr hdir
        rw [List.isEmpty_iff.mp hempty] at hm
        cases hm
      next => exact ⟨_, rfl⟩
    exact ⟨p, mid, hadd, Task.returns_ofExcept_bind.mpr ⟨found, hmap,
      Task.returns_bind.mpr ⟨p', last, hsub,
        Task.returns_ofExcept_bind.mpr ⟨dirs, hdirs, ⟨_, rfl⟩⟩⟩⟩⟩

theorem listText?_of_absent {path : String} (h : files.isPresent path = .ok false) :
    listText? files path = none := by
  obtain ⟨e, hr⟩ := FileTree.read_of_absent h
  rw [listText?, hr]
  rfl

theorem ofListFiles_returns :
    Task.Returns (ofListFiles files root) st ↔ ListsFit files root := by
  have hfile : Path.below root listFileName = listFile root := rfl
  rw [ofListFiles, hfile, Task.returns_ofExcept_bind, ListsFit, ListFits]
  constructor
  · rintro ⟨b, hpresent, h⟩
    cases b with
    | false =>
      have hnone := listText?_of_absent hpresent
      refine ⟨⟨⟨false, hpresent⟩, fun text ht => ?_⟩, fun text ht => ?_⟩
      all_goals cases hnone.symm.trans ht
    | true =>
      rw [if_neg (by simp)] at h
      obtain ⟨text, mid, hread, h⟩ := Task.returns_bind.mp h
      have htext := eq_listText? hread
      cases text with
      | none =>
        refine ⟨⟨⟨true, hpresent⟩, fun text ht => ?_⟩, fun text ht => ?_⟩
        all_goals cases htext.trans ht
      | some text =>
        obtain ⟨hcommands, hrest⟩ := ofRootFile_returns.mp h
        refine ⟨⟨⟨true, hpresent⟩, fun text' ht => ?_⟩, fun text' ht => ?_⟩
        all_goals cases htext.trans ht
        · exact hcommands
        · exact hrest
  · rintro ⟨⟨⟨b, hpresent⟩, hcommands⟩, hrest⟩
    refine ⟨b, hpresent, ?_⟩
    cases b with
    | false => exact ⟨{}, rfl⟩
    | true =>
      rw [if_neg (by simp)]
      have hread : Task.Returns (readListFile files (listFile root)) st :=
        readListFile_returns.mpr ⟨true, hpresent⟩
      obtain ⟨text, mid, hread⟩ := Task.returns_iff.mp hread
      refine Task.returns_bind.mpr ⟨text, mid, hread, ?_⟩
      have htext := eq_listText? hread
      cases text with
      | none => exact Task.returns_pure _ _
      | some text =>
        exact ofRootFile_returns.mpr ⟨hcommands text htext.symm, hrest text htext.symm⟩

/-- An include path that the list files of a project name. -/
def ListsName (files : FileTree) (root path : String) : Prop :=
  ∃ text, listText? files (listFile root) = some text ∧ (CommandsName root root text path ∨
    ∃ dir inner, Subdirectory files root text dir ∧ listText? files (listFile dir) = some inner ∧
      CommandsName root dir inner path)

/-- A directory that list files give for the sources: one that they add, or a usual one. -/
def ListsHome (files : FileTree) (root dir : String) : Prop :=
  (∃ text, listText? files (listFile root) = some text ∧ Subdirectory files root text dir) ∨
    ∃ usual ∈ usualDirectories, files.isDirectory (Path.below root usual) = .ok true ∧
      files.resolve (Path.below root usual) = .ok dir

theorem mem_sourceDirectories {text : List Char} {found : List (Option String)}
    {dirs : List String} {x : String} (ht : listText? files (listFile root) = some text)
    (hmap : (subdirectoryPaths root text).mapM (directory? files) = .ok found)
    (h : sourceDirectories files root (found.filterMap id) = .ok dirs) (hx : x ∈ dirs) :
    ListsHome files root x := by
  unfold sourceDirectories at h
  split at h
  next =>
    obtain ⟨usual, hm, hb, hr⟩ := mem_firstDirectory h hx
    exact .inr ⟨usual, hm, hb, hr⟩
  next =>
    cases h
    exact .inl ⟨text, ht, (mem_directories hmap).mp hx⟩

/-- No list of the project names anything twice. -/
structure Distinct (p : CmakeProject) : Prop where
  includes : p.includePaths.Nodup
  directories : p.sourceDirectories.Nodup
  sources : p.sourceFiles.Nodup
  args : p.compilerArgs.Nodup

theorem ofRootFile_spec {text : List Char} {p : CmakeProject}
    (ht : listText? files (listFile root) = some text)
    (h : (ofRootFile files root text).run st = (.ok p, st')) :
    Gathered files (ListsName files root) (fun _ => False) p ∧ Distinct p ∧
      ∀ x ∈ p.sourceDirectories, ListsHome files root x := by
  obtain ⟨q, mid, hadd, h⟩ := Task.run_bind_eq_ok h
  obtain ⟨found, hmap, h⟩ := Task.ofExcept_bind_eq_ok h
  obtain ⟨q', last, hsub, h⟩ := Task.run_bind_eq_ok h
  obtain ⟨dirs, hdirs, h⟩ := Task.ofExcept_bind_eq_ok h
  cases h
  have hstart : Gathered files (ListsName files root) (fun _ => False)
      { name := projectName? text, standard := standard? text } := ⟨by simp, by simp, by simp⟩
  obtain ⟨hq, hsame⟩ := hstart.addCommands (fun path hp => ⟨text, ht, .inl hp⟩) hadd
  obtain ⟨hq', hsame'⟩ := hq.addSubdirectories (fun dir hdir inner hi path hp =>
    ⟨text, ht, .inr ⟨dir, inner, (mem_directories hmap).mp hdir, hi, hp⟩⟩) hsub
  have hnone : q'.sourceFiles = [] := hsame'.trans hsame
  refine ⟨⟨fun x hx => hq'.includes x (List.mem_eraseDups.mp hx), hq'.sources,
    fun x hx => hq'.args x (List.mem_eraseDups.mp hx)⟩,
    ⟨nodup_eraseDups _, nodup_eraseDups _, ?_, nodup_eraseDups _⟩, fun x hx => ?_⟩
  · exact hnone ▸ List.nodup_nil
  · exact mem_sourceDirectories ht hmap hdirs (List.mem_eraseDups.mp hx)

theorem ofListFiles_spec {p : CmakeProject}
    (h : (ofListFiles files root).run st = (.ok p, st')) :
    Gathered files (ListsName files root) (fun _ => False) p ∧ Distinct p ∧
      ∀ x ∈ p.sourceDirectories, ListsHome files root x := by
  have hempty : Gathered files (ListsName files root) (fun _ => False) {} ∧ Distinct {} ∧
      ∀ x ∈ ({} : CmakeProject).sourceDirectories, ListsHome files root x :=
    ⟨.empty _ _, ⟨.nil, .nil, .nil, .nil⟩, by simp⟩
  obtain ⟨b, hb, h⟩ := Task.ofExcept_bind_eq_ok h
  cases b with
  | false =>
    cases h
    exact hempty
  | true =>
    rw [if_neg (by simp)] at h
    obtain ⟨text, mid, hread, h⟩ := Task.run_bind_eq_ok h
    cases text with
    | none =>
      cases h
      exact hempty
    | some text => exact ofRootFile_spec (eq_listText? hread).symm h

end Cmake

end NPlusOne
