import NPlusOne.Proofs.GeneratedSettings
import NPlusOne.Proofs.SortedTexts

namespace NPlusOne

namespace FileTree

variable {t : FileTree} {names root : List String} {dir x : String} {e : Entry}
  {found : List String}

/-- Every entry stands behind directories only, under names that can be asked for. -/
structure Sound (t : FileTree) : Prop where
  inside : ∀ names e, t.entry? names = some e →
    ∀ ms, ms <+: names → ms ≠ names → t.entry? ms = some .directory
  fits : ∀ names e, t.entry? names = some e →
    ∀ name ∈ names, Path.IsName name ∧ nameFits name = true

/-- Below the directory stands an entry, whatever it is, whose name ends like that of a source
file. -/
def SourceBelow (t : FileTree) (dir : String) (names : List String) : Prop :=
  t.isDirectory (Path.tidy dir) = .ok true ∧ ∃ root inner name stem ending,
    t.look (Path.tidy dir) = .ok (root, .directory) ∧ names = root ++ inner ++ [name] ∧
    (∃ e, t.entry? names = some e) ∧ name = stem ++ ending ∧
    (ending = ".cpp" ∨ ending = ".cc" ∨ ending = ".cxx" ∨ ending = ".c")

theorem exists_entry?_iff : (∃ e, t.entry? names = some e) ↔ names ∈ t.entries.map Prod.fst := by
  rw [← Option.isSome_iff_exists, entry?, Option.isSome_map, List.find?_isSome]
  simp

theorem mem_below : names ∈ t.below root ↔
    (∃ e, t.entry? names = some e) ∧ ∃ inner name, names = root ++ inner ++ [name] := by
  rw [exists_entry?_iff, below, List.mem_filter]
  refine and_congr_right fun _ => ?_
  simp only [Bool.and_eq_true, List.isPrefixOf_iff_prefix, decide_eq_true_eq]
  constructor
  · rintro ⟨⟨rest, rfl⟩, hne⟩
    obtain rfl | ⟨inner, name, rfl⟩ := List.eq_nil_or_concat' rest
    · exact absurd (List.append_nil root) hne
    · exact ⟨inner, name, (List.append_assoc ..).symm⟩
  · rintro ⟨inner, name, rfl⟩
    refine ⟨⟨inner ++ [name], (List.append_assoc ..).symm⟩, fun heq => ?_⟩
    have hlength := congrArg List.length heq
    simp at hlength

theorem mem_sourceEndings {ending : String} : ending ∈ sourceEndings ↔
    ending = ".cpp" ∨ ending = ".cc" ∨ ending = ".cxx" ∨ ending = ".c" := by
  simp [sourceEndings]

theorem sourceBelow_iff (hd : t.isDirectory (Path.tidy dir) = .ok true)
    (hl : t.look (Path.tidy dir) = .ok (root, .directory)) :
    t.SourceBelow dir names ↔ names ∈ sourceEndings.flatMap fun ending =>
      (t.below root).filter fun entry => (entry.getLast?.getD "").endsWith ending := by
  simp only [List.mem_flatMap, List.mem_filter, mem_below, endsWith_iff, mem_sourceEndings]
  constructor
  · rintro ⟨_, root', inner, name, stem, ending, hl', rfl, he, hname, hending⟩
    cases hl.symm.trans hl'
    exact ⟨ending, hending, ⟨he, inner, name, rfl⟩, stem, by simpa using hname⟩
  · rintro ⟨ending, hending, ⟨he, inner, name, rfl⟩, stem, hname⟩
    exact ⟨hd, root, inner, name, stem, ending, hl, rfl, he, by simpa using hname, hending⟩

theorem sourceFiles_of_directory (hd : t.isDirectory (Path.tidy dir) = .ok true)
    (hl : t.look (Path.tidy dir) = .ok (root, .directory)) :
    t.sourceFiles dir = (sourceEndings.flatMap fun ending =>
      (t.below root).filter fun entry => (entry.getLast?.getD "").endsWith ending).mapM
        (fun names => t.resolve (pathText names)) >>= fun xs => .ok (sortUnique xs) := by
  simp only [sourceFiles, hd, hl]
  rfl

/-- A directory has its entries resolved one by one; of anything else nothing is listed. -/
theorem sourceFiles_cases (h : t.sourceFiles dir = .ok found) :
    t.isDirectory (Path.tidy dir) = .ok false ∧ found = [] ∨
      ∃ (named : List (List String)) (xs : List String),
        (∀ names, t.SourceBelow dir names ↔ names ∈ named) ∧
        named.mapM (fun names => t.resolve (pathText names)) = .ok xs ∧ found = sortUnique xs := by
  obtain ⟨b, hb, hrest⟩ := except_bind_eq_ok.mp h
  cases b with
  | false =>
    cases hrest
    exact .inl ⟨hb, rfl⟩
  | true =>
    obtain ⟨_, root, hlook⟩ := isDirectory_eq_true.mp hb
    rw [sourceFiles_of_directory hb hlook] at h
    obtain ⟨xs, hxs, h⟩ := except_bind_eq_ok.mp h
    cases h
    exact .inr ⟨_, xs, fun names => sourceBelow_iff hb hlook, hxs, rfl⟩

theorem mem_sourceFiles (h : t.sourceFiles dir = .ok found) :
    x ∈ found ↔ ∃ names, t.SourceBelow dir names ∧ t.resolve (pathText names) = .ok x := by
  rcases sourceFiles_cases h with ⟨hb, rfl⟩ | ⟨named, xs, hnamed, hxs, rfl⟩
  · refine iff_of_false (by simp) ?_
    rintro ⟨names, hbelow, _⟩
    cases hb.symm.trans hbelow.1
  · rw [mem_sortUnique, mem_except_mapM hxs]
    simp only [hnamed]

theorem exists_resolve_of_sourceFiles (h : t.sourceFiles dir = .ok found)
    (hn : t.SourceBelow dir names) : ∃ x, t.resolve (pathText names) = .ok x := by
  rcases sourceFiles_cases h with ⟨hb, _⟩ | ⟨named, xs, hnamed, hxs, _⟩
  · cases hb.symm.trans hn.1
  · exact except_mapM_returns.mp ⟨xs, hxs⟩ names ((hnamed names).mp hn)

section Plain

variable (ht : t.Sound)
include ht

theorem Sound.placed (he : t.entry? names = some e) (hd : ∀ target, e ≠ .link target) :
    t.Placed names e :=
  ⟨he, hd, ht.inside names e he, ht.fits names e he⟩

/-- No link is met on the way to an entry that is none itself. -/
theorem Sound.linkAt?_eq_none (he : t.entry? names = some e) (hd : ∀ target, e ≠ .link target)
    {front : List String} {piece : String} (hp : front ++ [piece] <+: names) :
    t.linkAt? (pathText (front ++ [piece])) = none := by
  have hplaced := ht.placed he hd
  have hfits : ∀ name ∈ front ++ [piece], Path.IsName name ∧ nameFits name = true :=
    fun name hm => hplaced.fits name (hp.subset hm)
  have hfront : t.Placed front .directory := by
    refine hplaced.of_prefix ((List.prefix_append front [piece]).trans hp) ?_
    rintro rfl
    have hlength := hp.length_le
    rw [List.length_append, List.length_singleton] at hlength
    omega
  have hnames : t.namesOf 1 front = front :=
    namesFrom_names [] fun name hm => (hfits name (List.mem_append_left _ hm)).1
  have hentry : (t.entry? (front ++ [piece])).bind Entry.target? = none := by
    by_cases heq : front ++ [piece] = names
    · rw [heq, he]
      cases e with
      | link target => exact absurd rfl (hd target)
      | directory => rfl
      | file => rfl
    · rw [hplaced.above _ hp heq]
      rfl
  cases hlink : t.linkAt? (pathText (front ++ [piece])) with
  | none => rfl
  | some target =>
    have hspelt := spelt_pathText fun name hm => (hfits name hm).1
    have hpiece := hfits piece (by simp)
    rw [linkAt?_eq hspelt (size_of_linkAt? hlink) hpiece.1 hpiece.2 hfront.root (by rwa [hnames]),
      hnames, hentry] at hlink
    cases hlink

theorem Sound.realPieces (he : t.entry? names = some e) (hd : ∀ target, e ≠ .link target)
    {follow : SeenLinks → String → String → Except Failure RealPath} {front rest : List String}
    (hnames : names = front ++ rest) {r : RealPath}
    (h : t.realPieces follow [] (pathText front) rest = .ok r) : r.path = pathText names := by
  induction rest generalizing front with
  | nil =>
    cases h
    rw [hnames, List.append_nil]
  | cons piece rest ih =>
    have hfits := ht.fits names e he
    have hpiece := (hfits piece (by simp [hnames])).1
    have hfront : Path.Spelt (pathText front) 1 front :=
      spelt_pathText fun name hm => (hfits name (by simp [hnames, hm])).1
    have hjoin : Path.join (pathText front) piece = pathText (front ++ [piece]) :=
      eq_pathText (hfront.join hpiece)
    have hnext : names = front ++ [piece] ++ rest := by simp [hnames]
    have hlink := ht.linkAt?_eq_none he hd ⟨rest, hnext.symm⟩
    rw [← hjoin] at hlink
    have hgo := realPieces_direct hpiece hlink h
    rw [hjoin] at hgo
    exact ih hnext hgo

/-- What is no link itself resolves to its own path. -/
theorem Sound.resolve (he : t.entry? names = some e) (hd : ∀ target, e ≠ .link target)
    (h : t.resolve (pathText names) = .ok x) : x = pathText names := by
  obtain ⟨_, r, hreal, rfl⟩ := resolve_eq_ok h
  have hspelt := spelt_pathText fun name hm => (ht.fits names e he name hm).1
  have hne : pathText names ≠ "" := by simp [pathText]
  have habsolute : Path.isAbsolute (pathText names) = true := hspelt.isAbsolute
  rw [hspelt.tidy hne] at hreal
  change t.realPieces (t.realFrom 999) [] (if Path.isAbsolute (pathText names) then "/" else "")
    (Path.pieces (pathText names)) = .ok r at hreal
  rw [if_pos habsolute, hspelt.pieces] at hreal
  -- The pieces before the names are empty, also that behind the slash of the root alone.
  have hpath : r.path = pathText names := by
    by_cases hnil : names = []
    · subst hnil
      cases hreal
      rfl
    · rw [if_neg hnil] at hreal
      exact ht.realPieces he hd (List.nil_append names).symm hreal
  rw [hpath, t.absolute_of_normal habsolute (hspelt.normal hne)]

/-- Only regular files are listed for a directory exactly if no directory below it is named like a
source file and every link that is resolves to a regular file. -/
theorem Sound.files_only_iff (h : t.sourceFiles dir = .ok found) :
    (∀ x ∈ found, ∃ content, t.PlacedAt x (.file content)) ↔
      ∀ names, t.SourceBelow dir names → t.entry? names ≠ some .directory ∧
        ∀ target x, t.entry? names = some (.link target) → t.resolve (pathText names) = .ok x →
          ∃ content, t.PlacedAt x (.file content) := by
  constructor
  · intro hfiles names hbelow
    refine ⟨fun hdirectory => ?_, fun target x _ hx =>
      hfiles x ((mem_sourceFiles h).mpr ⟨names, hbelow, hx⟩)⟩
    obtain ⟨x, hx⟩ := exists_resolve_of_sourceFiles h hbelow
    obtain ⟨content, names', hsame, hplaced⟩ :=
      hfiles x ((mem_sourceFiles h).mpr ⟨names, hbelow, hx⟩)
    rw [ht.resolve hdirectory (by simp) hx] at hsame
    have hnames : names = names' := by
      have hspelt := spelt_pathText fun name hm => (ht.fits names _ hdirectory name hm).1
      have hspelt' := spelt_pathText fun name hm => (hplaced.fits name hm).1
      rw [← hspelt.components, ← hspelt'.components, hsame]
    rw [hnames] at hdirectory
    cases hplaced.entry.symm.trans hdirectory
  · intro hall x hx
    obtain ⟨names, hbelow, hresolve⟩ := (mem_sourceFiles h).mp hx
    obtain ⟨hdirectory, hlink⟩ := hall names hbelow
    obtain ⟨_, _, _, _, _, _, _, _, ⟨e, he⟩, _⟩ := hbelow
    cases e with
    | directory => exact absurd he hdirectory
    | link target => exact hlink target x he hresolve
    | file content =>
      exact ⟨content, names, ht.resolve he (by simp) hresolve, ht.placed he (by simp)⟩

end Plain

end FileTree

namespace Settings

open FileTree

variable {σ : Type} [HasLog σ] {t : FileTree} {s : Settings} {st : σ} {found : List String}
  {files dirs : List Value} {x : String}

theorem value_eq_ok {name : Setting} {v : Value} :
    s.value name = .ok v ↔ s.missing.contains name = false ∧ v = s.get name := by
  unfold value
  cases s.missing.contains name <;> simp [eq_comm]

theorem mem_named {named : List String}
    (h : files.mapM (fun v => do t.resolve (← v.asText)) = .ok named) :
    x ∈ named ↔ ∃ path, .text path ∈ files ∧ t.resolve path = .ok x := by
  rw [mem_except_mapM h]
  constructor
  · rintro ⟨v, hv, hresolve⟩
    obtain ⟨path, hpath, hresolve⟩ := except_bind_eq_ok.mp hresolve
    rw [Value.asText_eq_ok] at hpath
    exact ⟨path, hpath ▸ hv, hresolve⟩
  · rintro ⟨path, hpath, hresolve⟩
    exact ⟨.text path, hpath, except_bind_eq_ok.mpr ⟨path, rfl, hresolve⟩⟩

theorem mem_contributed {below : List (List String)}
    (h : dirs.mapM (fun v => do t.sourceFiles (← v.asText)) = .ok below) :
    x ∈ below.flatten ↔ ∃ dir names, .text dir ∈ dirs ∧ t.SourceBelow dir names ∧
      t.resolve (pathText names) = .ok x := by
  rw [List.mem_flatten]
  simp only [mem_except_mapM h]
  constructor
  · rintro ⟨found, ⟨v, hv, hfound⟩, hx⟩
    obtain ⟨dir, hdir, hfound⟩ := except_bind_eq_ok.mp hfound
    rw [Value.asText_eq_ok] at hdir
    obtain ⟨names, hnames⟩ := (mem_sourceFiles hfound).mp hx
    exact ⟨dir, names, hdir ▸ hv, hnames⟩
  · rintro ⟨dir, names, hdir, hnames⟩
    obtain ⟨found, hv⟩ := except_mapM_returns.mp ⟨below, h⟩ _ hdir
    obtain ⟨_, hsame, hfound⟩ := except_bind_eq_ok.mp hv
    cases hsame
    exact ⟨found, ⟨_, hdir, hv⟩, (mem_sourceFiles hfound).mpr ⟨names, hnames⟩⟩

theorem allSourceFiles_eq_ok : ((s.allSourceFiles t).run st).1 = .ok found ↔
    s.keeps .sourceFiles = .ok () ∧ s.missing.contains .sourceFiles = false ∧
    s.missing.contains .sourceDirectories = false ∧ ∃ files dirs named below,
      s.sourceFiles.parts = .ok files ∧ s.sourceDirectories.parts = .ok dirs ∧
      files.mapM (fun v => do t.resolve (← v.asText)) = .ok named ∧
      dirs.mapM (fun v => do t.sourceFiles (← v.asText)) = .ok below ∧
      found = sortUnique (named ++ below.flatten) := by
  rw [allSourceFiles, Analyzer.run_told]
  simp only [except_bind_eq_ok, value_eq_ok, resolveAll]
  constructor
  · rintro ⟨_, hkeeps, _, ⟨hfiles, rfl⟩, named, ⟨files, hparts, hnamed⟩, _, ⟨hdirs, rfl⟩, dirs,
      hparts', below, hbelow, h⟩
    cases h
    exact ⟨hkeeps, hfiles, hdirs, files, dirs, named, below, hparts, hparts', hnamed, hbelow, rfl⟩
  · rintro ⟨hkeeps, hfiles, hdirs, files, dirs, named, below, hparts, hparts', hnamed, hbelow, rfl⟩
    exact ⟨(), hkeeps, _, ⟨hfiles, rfl⟩, named, ⟨files, hparts, hnamed⟩, _, ⟨hdirs, rfl⟩, dirs,
      hparts', below, hbelow, rfl⟩

/-- The sources are listed in increasing order whatever the order of the settings. The source
directories contribute what stands below them under the name of a source file, be it a file, a
directory or a link; files and directories appear under their own paths. -/
theorem allSourceFiles_by_name (h : ((s.allSourceFiles t).run st).1 = .ok found) :
    ∃ dirs files, s.sourceDirectories.parts = .ok dirs ∧ s.sourceFiles.parts = .ok files ∧
      found.Pairwise (· < ·) ∧
      (∀ dirs' files' (st' : σ), (∀ v, v ∈ dirs' ↔ v ∈ dirs) → (∀ v, v ∈ files' ↔ v ∈ files) →
        ((((s.put .sourceDirectories (.list dirs')).put .sourceFiles (.list files')).allSourceFiles
          t).run st').1 = .ok found) ∧
      (∀ x, x ∈ found ↔ (∃ path, .text path ∈ files ∧ t.resolve path = .ok x) ∨
        ∃ dir names, .text dir ∈ dirs ∧ t.SourceBelow dir names ∧
          t.resolve (pathText names) = .ok x) ∧
      (t.Sound → ∀ dir, .text dir ∈ dirs →
        (∀ names e, t.SourceBelow dir names → t.entry? names = some e →
          (∀ target, e ≠ .link target) → pathText names ∈ found) ∧
        ((∀ names x, t.SourceBelow dir names → t.resolve (pathText names) = .ok x →
            ∃ content, t.PlacedAt x (.file content)) ↔
          ∀ names, t.SourceBelow dir names → t.entry? names ≠ some .directory ∧
            ∀ target x, t.entry? names = some (.link target) →
              t.resolve (pathText names) = .ok x → ∃ content, t.PlacedAt x (.file content))) := by
  obtain ⟨hkeeps, hmissing, hmissing', files, dirs, named, below, hfiles, hdirs, hnamed, hbelow,
    rfl⟩ := allSourceFiles_eq_ok.mp h
  have hmem : ∀ x, x ∈ sortUnique (named ++ below.flatten) ↔
      (∃ path, .text path ∈ files ∧ t.resolve path = .ok x) ∨
        ∃ dir names, .text dir ∈ dirs ∧ t.SourceBelow dir names ∧
          t.resolve (pathText names) = .ok x := by
    intro x
    rw [mem_sortUnique, List.mem_append, mem_named hnamed, mem_contributed hbelow]
  refine ⟨dirs, files, hdirs, hfiles, pairwise_sortUnique _, ?_, hmem, ?_⟩
  · intro dirs' files' st' hdirs' hfiles'
    obtain ⟨named', hnamed', hsame⟩ := exists_except_mapM hfiles' hnamed
    obtain ⟨below', hbelow', hsame'⟩ := exists_except_mapM hdirs' hbelow
    refine allSourceFiles_eq_ok.mpr ⟨hkeeps, hmissing, hmissing', files', dirs', named', below',
      rfl, rfl, hnamed', hbelow', sortUnique_congr fun x => ?_⟩
    simp only [List.mem_append, List.mem_flatten, hsame, hsame']
  · intro ht dir hdir
    obtain ⟨contributed, hv⟩ := except_mapM_returns.mp ⟨below, hbelow⟩ _ hdir
    obtain ⟨_, hsame, hcontributed⟩ := except_bind_eq_ok.mp hv
    cases hsame
    refine ⟨fun names e hnames he hd => ?_, ?_⟩
    · obtain ⟨x, hx⟩ := exists_resolve_of_sourceFiles hcontributed hnames
      obtain rfl := ht.resolve he hd hx
      exact (hmem _).mpr (.inr ⟨dir, names, hdir, hnames, hx⟩)
    · rw [← ht.files_only_iff hcontributed]
      simp only [mem_sourceFiles hcontributed]
      constructor
      · rintro hall x ⟨names, hnames, hx⟩
        exact hall names x hnames hx
      · intro hall names x hnames hx
        exact hall x ⟨names, hnames, hx⟩

end Settings

namespace SampleSources

open FileTree Settings

/-- A directory with the name of a source file, a source file inside it, and a link to that one. -/
def mixed : FileTree where
  entries := [([], .directory), (["src"], .directory), (["src", "x.cpp"], .directory),
    (["src", "x.cpp", "a.c"], .file (.bytes [])), (["src", "l.cc"], .link "x.cpp/a.c")]

def settings : Settings where
  sourceDirectories := .list [.text "/src"]

theorem sound_mixed : mixed.Sound := by
  have hnames : ∀ names ∈ mixed.entries.map Prod.fst,
      (∀ ms ∈ names.inits, ms ≠ names → mixed.entry? ms = some .directory) ∧
      ∀ name ∈ names, name ≠ "" ∧ name ≠ "." ∧ name ≠ ".." ∧ '/' ∉ name.toList ∧
        nameFits name = true := by
    decide +kernel
  constructor
  · intro names e he ms hms hne
    exact (hnames names (exists_entry?_iff.mp ⟨e, he⟩)).1 ms ((List.mem_inits ms names).mpr hms) hne
  · intro names e he name hname
    obtain ⟨hempty, hhere, hup, hslash, hfits⟩ :=
      (hnames names (exists_entry?_iff.mp ⟨e, he⟩)).2 name hname
    exact ⟨⟨hempty, hhere, hup, hslash⟩, hfits⟩

theorem isDirectory_src : mixed.isDirectory (Path.tidy "/src") = .ok true := by
  decide +kernel

theorem look_src : mixed.look (Path.tidy "/src") = .ok (["src"], .directory) := by
  decide +kernel

theorem sourceFiles_src : mixed.sourceFiles "/src" = .ok ["/src/x.cpp", "/src/x.cpp/a.c"] := by
  have hresolved : (sourceEndings.flatMap fun ending => (mixed.below ["src"]).filter fun entry =>
      (entry.getLast?.getD "").endsWith ending).mapM (fun names => mixed.resolve (pathText names)) =
        .ok ["/src/x.cpp", "/src/x.cpp/a.c", "/src/x.cpp/a.c"] := by
    decide +kernel
  have hsorted : sortUnique ["/src/x.cpp", "/src/x.cpp/a.c", "/src/x.cpp/a.c"] =
      ["/src/x.cpp", "/src/x.cpp/a.c"] :=
    sortUnique_eq (by decide) (by simp)
  rw [sourceFiles_of_directory isDirectory_src look_src, hresolved]
  exact congrArg Except.ok hsorted

/-- The directory is listed among the source files. -/
theorem mixed_by_name : mixed.Sound ∧
    ((settings.allSourceFiles mixed).run (#[] : Log)).1 =
      .ok ["/src/x.cpp", "/src/x.cpp/a.c"] ∧
    ((((settings.put .sourceDirectories (.list [.text "/src", .text "/src"])).put .sourceFiles
      (.list [])).allSourceFiles mixed).run (#[] : Log)).1 =
        .ok ["/src/x.cpp", "/src/x.cpp/a.c"] ∧
    ¬ ∀ names x, mixed.SourceBelow "/src" names → mixed.resolve (pathText names) = .ok x →
      ∃ content, mixed.PlacedAt x (.file content) := by
  have hbelow : [Value.text "/src"].mapM (fun v => do mixed.sourceFiles (← v.asText)) =
      .ok [["/src/x.cpp", "/src/x.cpp/a.c"]] := by
    rw [List.mapM_cons,
      except_bind_eq_ok.mpr ⟨"/src", Value.asText_eq_ok.mpr rfl, sourceFiles_src⟩]
    rfl
  have hsorted : sortUnique ["/src/x.cpp", "/src/x.cpp/a.c"] = ["/src/x.cpp", "/src/x.cpp/a.c"] :=
    sortUnique_eq (by decide) fun _ => Iff.rfl
  have hrun : ((settings.allSourceFiles mixed).run (#[] : Log)).1 =
      .ok ["/src/x.cpp", "/src/x.cpp/a.c"] :=
    allSourceFiles_eq_ok.mpr ⟨rfl, rfl, rfl, [], [.text "/src"], [], _, rfl, rfl, rfl, hbelow,
      hsorted.symm⟩
  obtain ⟨dirs, files, hdirs, hfiles, _, hother, _, hlisted⟩ := allSourceFiles_by_name hrun
  cases hdirs
  cases hfiles
  refine ⟨sound_mixed, hrun, hother [.text "/src", .text "/src"] [] #[] (by simp) (by simp), ?_⟩
  rw [(hlisted sound_mixed "/src" (by simp)).2]
  intro hall
  have hdirectory : mixed.SourceBelow "/src" ["src", "x.cpp"] :=
    ⟨isDirectory_src, ["src"], [], "x.cpp", "x", ".cpp", look_src, rfl,
      ⟨.directory, by decide +kernel⟩, rfl, .inl rfl⟩
  exact (hall _ hdirectory).1 (by decide +kernel)

end SampleSources

end NPlusOne
