import Mathlib.Data.List.Basic
import Mathlib.Data.List.Induction
import NPlusOne.FileTree.Resolve
import NPlusOne.Proofs.PathNormal

namespace NPlusOne

theorem endsWith_iff {s tail : String} : s.endsWith tail = true ↔ ∃ stem, s = stem ++ tail := by
  rw [String.endsWith_eq_endsWith_toSlice, String.Slice.endsWith_string_iff]
  constructor
  · rintro ⟨stem, hstem⟩
    exact ⟨String.ofList stem, by simpa [← String.toList_inj] using hstem.symm⟩
  · rintro ⟨stem, rfl⟩
    exact ⟨stem.toList, by simp⟩

namespace Path

/-- A piece that names an entry of a directory. -/
structure IsName (piece : String) : Prop where
  nonempty : piece ≠ ""
  notHere : piece ≠ "."
  notUp : piece ≠ ".."
  whole : '/' ∉ piece.toList

/-- The text of a path as `k` slashes and its pieces, of which only those `..` are no names that
lead a relative path out of its directory. -/
structure Spelt (path : String) (k : Nat) (parts : List String) : Prop where
  bound : k ≤ 2
  text : path.toList = spelled k parts
  kept : Kept (0 < k) parts.reverse

theorem spelled_append_singleton (k : Nat) (parts : List String) (piece : String) :
    spelled k (parts ++ [piece]) =
      spelled k parts ++ (if parts = [] then [] else ['/']) ++ piece.toList := by
  unfold spelled
  induction parts with
  | nil => simp
  | cons part parts ih =>
    cases parts with
    | nil => simp [List.intercalate_cons_cons]
    | cons other parts =>
      simp only [List.cons_append, List.map_cons, List.intercalate_cons_cons, reduceCtorEq,
        if_false, List.append_assoc, List.append_cancel_left_eq] at ih ⊢
      rw [ih]

theorem getLast?_spelled {k : Nat} {parts : List String}
    (h : ∀ piece ∈ parts, piece ≠ "" ∧ '/' ∉ piece.toList) (hne : parts ≠ []) :
    (spelled k parts).getLast? ≠ some '/' := by
  obtain ⟨front, piece, rfl⟩ := (List.eq_nil_or_concat' parts).resolve_left hne
  obtain ⟨hempty, hs⟩ := h piece (by simp)
  have hpiece : piece.toList ≠ [] := by simpa using hempty
  rw [spelled_append_singleton, List.getLast?_append_of_ne_nil _ hpiece]
  intro hlast
  exact hs (List.mem_of_getLast? hlast)

theorem endsWith_slash_iff {p : String} :
    p.endsWith "/" = true ↔ p.toList.getLast? = some '/' := by
  rw [String.endsWith_eq_endsWith_toSlice, String.Slice.endsWith_string_iff,
    List.getLast?_eq_some_iff]
  simp [List.IsSuffix, eq_comm]

theorem isAbsolute_eq_false {piece : String} (h : '/' ∉ piece.toList) :
    isAbsolute piece = false := by
  rw [Bool.eq_false_iff, Ne, isAbsolute_iff]
  exact fun hhead => h (List.mem_of_head? hhead)

/-- What comes behind a path comes behind its last slash. -/
theorem toList_join {path piece : String} {k : Nat} {parts : List String}
    (hpath : path.toList = spelled k parts)
    (h : ∀ part ∈ parts, part ≠ "" ∧ '/' ∉ part.toList) (hp : '/' ∉ piece.toList) :
    (join path piece).toList = spelled k (parts ++ [piece]) := by
  rw [join, isAbsolute_eq_false hp, Bool.false_or, spelled_append_singleton, ← hpath]
  by_cases hnil : parts = []
  · subst hnil
    cases k with
    | zero =>
      have hempty : path = "" := by
        rw [← String.toList_inj, hpath]
        rfl
      simp [hempty]
    | succ k =>
      have hslash : path.endsWith "/" = true := by
        rw [endsWith_slash_iff, hpath]
        simp [spelled, List.getLast?_replicate]
      have hne : path ≠ "" := by
        rintro rfl
        simp [spelled] at hpath
      simp [hslash, hne]
  · have hslash : ¬ path.endsWith "/" = true := by
      rw [endsWith_slash_iff, hpath]
      exact getLast?_spelled h hnil
    have hne : path ≠ "" := by
      rintro rfl
      obtain ⟨front, part, rfl⟩ := (List.eq_nil_or_concat' parts).resolve_left hnil
      have hpart := (h part (by simp)).1
      rw [spelled_append_singleton] at hpath
      simp_all
    simp [hslash, hne, hnil]

theorem Spelt.mem {path : String} {k : Nat} {parts : List String} (h : Spelt path k parts) :
    ∀ piece ∈ parts, piece ≠ "" ∧ '/' ∉ piece.toList :=
  fun _ hm => h.kept.mem (List.mem_reverse.mpr hm)

theorem Spelt.join {path piece : String} {k : Nat} {parts : List String} (h : Spelt path k parts)
    (hp : IsName piece) : Spelt (join path piece) k (parts ++ [piece]) where
  bound := h.bound
  text := toList_join h.text h.mem hp.whole
  kept := by
    rw [List.reverse_append]
    exact .name hp.nonempty hp.notHere hp.notUp hp.whole h.kept

/-- Without its last piece a path also loses the slash before it, but not its root. -/
theorem toList_directory {path piece : String} {k : Nat} {parts : List String}
    (hpath : path.toList = spelled k (parts ++ [piece]))
    (h : ∀ part ∈ parts, part ≠ "" ∧ '/' ∉ part.toList) (hp : '/' ∉ piece.toList) :
    (directory path).toList = spelled k parts := by
  have hpiece : ∀ c ∈ piece.toList.reverse, (c ≠ '/' : Bool) = true := by
    intro c hc
    have hne : c ≠ '/' := by
      rintro rfl
      exact hp (List.mem_reverse.mp hc)
    simpa using hne
  have hdrop : path.toList.reverse.dropWhile (· ≠ '/') =
      ((spelled k parts ++ if parts = [] then [] else ['/']).reverse).dropWhile (· ≠ '/') := by
    rw [hpath, spelled_append_singleton, List.reverse_append, List.dropWhile_append_of_pos hpiece]
  unfold directory
  dsimp only
  rw [String.toList_ofList, hdrop]
  by_cases hnil : parts = []
  · subst hnil
    simp [spelled]
  · have hbare : (spelled k parts).reverse.dropWhile (· = '/') = (spelled k parts).reverse := by
      have hlast := getLast?_spelled (k := k) h hnil
      rw [← List.head?_reverse] at hlast
      cases hrev : (spelled k parts).reverse with
      | nil => rfl
      | cons c rest => simp_all
    have hne : spelled k parts ≠ [] := by
      obtain ⟨front, part, rfl⟩ := (List.eq_nil_or_concat' parts).resolve_left hnil
      have hpart := (h part (by simp)).1
      simp [spelled_append_singleton, hpart]
    simp [hnil, hbare, hne]

theorem Spelt.pieces {path : String} {k : Nat} {parts : List String} (h : Spelt path k parts) :
    pieces path = List.replicate k "" ++ if parts = [] then [""] else parts :=
  pieces_spelled h.text fun piece hm => (h.mem piece hm).2

theorem pieces_append {p q r : String} (h : p.toList = q.toList ++ '/' :: r.toList) :
    Path.pieces p = Path.pieces q ++ Path.pieces r := by
  simp only [Path.pieces, h, Text.splitOn_eq, List.splitOn_append_cons_self, List.map_append]

theorem Spelt.eq_empty {path : String} {k : Nat} {parts : List String} (h : Spelt path k parts) :
    path = "" ↔ k = 0 ∧ parts = [] := by
  rw [← String.toList_inj, h.text]
  constructor
  · intro hempty
    obtain ⟨hk, hparts⟩ := List.append_eq_nil_iff.mp hempty
    refine ⟨by simpa using hk, ?_⟩
    by_contra hne
    obtain ⟨front, part, rfl⟩ := (List.eq_nil_or_concat' parts).resolve_left hne
    have hpart := (h.mem part (by simp)).1
    rw [spelled_append_singleton] at hempty
    simp_all
  · rintro ⟨rfl, rfl⟩
    rfl

/-- Behind a root alone no further slash is put. -/
theorem Spelt.text_join {base p : String} {k : Nat} {parts : List String}
    (h : Spelt base k parts) (hk : 0 < k) (hp : Path.isAbsolute p = false) :
    (Path.join base p).toList =
      spelled k parts ++ (if parts = [] then [] else ['/']) ++ p.toList := by
  have hne : base ≠ "" := fun hempty => by
    have hzero := (h.eq_empty.mp hempty).1
    omega
  by_cases hnil : parts = []
  · subst hnil
    have hslash : base.endsWith "/" = true := by
      rw [endsWith_slash_iff, h.text]
      simp [spelled, List.getLast?_replicate, Nat.ne_of_gt hk]
    simp [Path.join, hp, hne, hslash, h.text]
  · have hslash : ¬ base.endsWith "/" = true := by
      rw [endsWith_slash_iff, h.text]
      exact getLast?_spelled h.mem hnil
    simp [Path.join, hp, hne, hslash, hnil, h.text]

/-- What goes on behind a path with a name has the slashes of the path at its front. -/
theorem Spelt.rootSlashes_append {base p : String} {k : Nat} {parts : List String}
    (h : Spelt base k parts) (hne : parts ≠ []) {tail : List Char}
    (htext : p.toList = spelled k parts ++ tail) : Path.rootSlashes p = k := by
  have hbody : ['/'].intercalate (parts.map String.toList) ≠ [] := by
    obtain ⟨part, rest, rfl⟩ := List.exists_cons_of_ne_nil hne
    have hpart := (h.mem part List.mem_cons_self).1
    cases rest <;> simp [List.intercalate_cons_cons, hpart]
  rw [spelled, List.append_assoc] at htext
  refine rootSlashes_eq h.bound htext ?_
  rw [List.head?_append_of_ne_nil _ hbody]
  exact head?_intercalate h.mem

theorem Spelt.rootSlashes_join {base p : String} {k : Nat} {parts : List String}
    (h : Spelt base k parts) (hk : 0 < k) (hp : Path.isAbsolute p = false) :
    Path.rootSlashes (Path.join base p) = k := by
  have htext := h.text_join hk hp
  rw [List.append_assoc] at htext
  by_cases hnil : parts = []
  · subst hnil
    have hhead : p.toList.head? ≠ some '/' := by
      rw [Ne, ← isAbsolute_iff, hp]
      exact Bool.false_ne_true
    exact rootSlashes_eq h.bound (by simpa [spelled] using htext) hhead
  · exact h.rootSlashes_append hnil htext

/-- A relative path comes behind the pieces of the path that it is seen from. -/
theorem Spelt.pieces_join {base p : String} {k : Nat} {parts : List String}
    (h : Spelt base k parts) (hk : 0 < k) (hp : Path.isAbsolute p = false) :
    Path.pieces (Path.join base p) = List.replicate k "" ++ parts ++ Path.pieces p := by
  have hbase := h.pieces
  have htext := h.text_join hk hp
  by_cases hnil : parts = []
  · subst hnil
    obtain ⟨k, rfl⟩ : ∃ n, k = n + 1 := ⟨k - 1, by omega⟩
    have hroot : base.toList =
        (String.ofList (List.replicate k '/')).toList ++ '/' :: "".toList := by
      simp [h.text, spelled, List.replicate_succ']
    have hjoin : (Path.join base p).toList =
        (String.ofList (List.replicate k '/')).toList ++ '/' :: p.toList := by
      simp [htext, ← h.text, hroot]
    rw [pieces_append hroot, if_pos rfl] at hbase
    rw [pieces_append hjoin, List.append_cancel_right hbase, List.append_nil]
  · have hjoin : (Path.join base p).toList = base.toList ++ '/' :: p.toList := by
      simp [htext, h.text, hnil]
    rw [pieces_append hjoin, hbase, if_neg hnil]

/-- A step up on the text takes the last name off or, if there is none, is kept. -/
theorem Spelt.stepUp {path : String} {k : Nat} {parts : List String} (h : Spelt path k parts) :
    Spelt (FileTree.stepUp path) k (pushPiece (0 < k) parts.reverse "..").reverse where
  bound := h.bound
  kept := by
    rw [List.reverse_reverse]
    exact h.kept.push (by decide)
  text := by
    have hup : '/' ∉ "..".toList := by decide
    obtain rfl | ⟨front, piece, rfl⟩ := List.eq_nil_or_concat' parts
    · have hpieces := h.pieces
      cases k with
      | zero =>
        have hempty : path = "" := h.eq_empty.mpr ⟨rfl, rfl⟩
        rw [FileTree.stepUp, if_pos hempty]
        rfl
      | succ k =>
        have hne : path ≠ "" := fun hempty => by simpa using h.eq_empty.mp hempty
        have hlast : ¬ (Path.pieces path).getLast? = some ".." := by simp [hpieces]
        rw [FileTree.stepUp, if_neg hne, if_neg hlast]
        simp [directory, h.text, spelled, pushPiece]
    · have hpieces := h.pieces
      have hfront : ∀ part ∈ front, part ≠ "" ∧ '/' ∉ part.toList :=
        fun part hm => h.mem part (List.mem_append_left _ hm)
      have hdir := toList_directory h.text hfront (h.mem piece (by simp)).2
      have hne : path ≠ "" := fun hempty => by simpa using h.eq_empty.mp hempty
      have hlast : (Path.pieces path).getLast? = some piece := by simp [hpieces]
      rw [FileTree.stepUp, if_neg hne, hlast]
      by_cases hpiece : piece = ".."
      · subst hpiece
        have hback := toList_join hdir hfront hup
        rw [if_pos rfl, toList_join hback (h.mem) hup]
        simp [pushPiece]
      · rw [if_neg (by simpa using hpiece), hdir]
        simp [pushPiece, hpiece]

theorem Kept.ne_here {rooted : Bool} {kept : List String} (h : Kept rooted kept) {piece : String}
    (hm : piece ∈ kept) : piece ≠ "." := by
  induction h with
  | nil => cases hm
  | up n =>
    rw [List.eq_of_mem_replicate hm]
    decide
  | name _ hdot _ _ _ ih =>
    rcases List.mem_cons.mp hm with rfl | hm
    · exact hdot
    · exact ih hm

theorem kept_of_isName {kept : List String} (h : ∀ piece ∈ kept, IsName piece) :
    Kept true kept := by
  induction kept with
  | nil => exact .nil
  | cons piece kept ih =>
    obtain ⟨hempty, hdot, hup, hs⟩ := h piece List.mem_cons_self
    exact .name hempty hdot hup hs (ih fun other hm => h other (List.mem_cons_of_mem _ hm))

theorem Spelt.steps {path : String} {k : Nat} {parts : List String} (h : Spelt path k parts) :
    steps path = parts := by
  have hparts : parts.filter (fun piece => piece ≠ "" && piece ≠ ".") = parts := by
    refine List.filter_eq_self.mpr fun piece hm => ?_
    have hdot := h.kept.ne_here (List.mem_reverse.mpr hm)
    simp [(h.mem piece hm).1, hdot]
  rw [Path.steps, h.pieces, List.filter_append]
  have hslashes : (List.replicate k "").filter (fun piece => piece ≠ "" && piece ≠ ".") = [] := by
    simp
  rw [hslashes, List.nil_append]
  split
  next hnil => simp [hnil]
  next => exact hparts

theorem Spelt.rootSlashes {path : String} {k : Nat} {parts : List String}
    (h : Spelt path k parts) : rootSlashes path = k :=
  (components_spelled h.bound h.text h.kept).1

theorem Spelt.components {path : String} {k : Nat} {parts : List String}
    (h : Spelt path k parts) : components path = parts :=
  (components_spelled h.bound h.text h.kept).2

theorem Spelt.isAbsolute {path : String} {k : Nat} {parts : List String} (h : Spelt path k parts) :
    isAbsolute path = decide (0 < k) := by
  rw [Path.isAbsolute, h.rootSlashes]

/-- The pieces, put together again, give the path. -/
theorem Spelt.assemble {path : String} {k : Nat} {parts : List String} (h : Spelt path k parts)
    (hne : path ≠ "") : assemble (root path) parts = path := by
  have htext : root path ++ "/".intercalate parts = path := by
    rw [← String.toList_inj, toList_root_append, h.rootSlashes, h.text]
  rw [Path.assemble, htext, if_neg hne]

theorem Spelt.tidy {path : String} {k : Nat} {parts : List String} (h : Spelt path k parts)
    (hne : path ≠ "") : tidy path = path := by
  rw [Path.tidy, h.steps, h.assemble hne]

theorem Spelt.normal {path : String} {k : Nat} {parts : List String} (h : Spelt path k parts)
    (hne : path ≠ "") : Normal path := by
  rw [Normal, normalize, h.components, h.assemble hne]

theorem Kept.tail {rooted : Bool} {kept : List String} (h : Kept rooted kept) :
    Kept rooted kept.tail := by
  cases h with
  | nil => exact .nil
  | up n hr =>
    cases n with
    | zero => exact .nil
    | succ n => exact .up n hr
  | name _ _ _ _ hrest => exact hrest

theorem Spelt.parent {path : String} {k : Nat} {parts : List String} (h : Spelt path k parts)
    (hk : 0 < k) : Spelt (parent path) k parts.dropLast where
  bound := h.bound
  kept := by
    rw [← List.tail_reverse]
    exact h.kept.tail
  text := by
    have htext : (root path ++ "/".intercalate parts.dropLast).toList =
        spelled k parts.dropLast := by
      rw [toList_root_append, h.rootSlashes]
    have hne : root path ++ "/".intercalate parts.dropLast ≠ "" := by
      intro hempty
      rw [hempty] at htext
      have hslashes := (List.nil_eq_append_iff.mp htext).1
      simp at hslashes
      omega
    rw [Path.parent, h.steps, Path.assemble, if_neg hne, htext]

theorem IsName.spelt {piece : String} (hp : IsName piece) : Spelt piece 0 [piece] := by
  have hempty : Spelt "" 0 [] := ⟨by omega, rfl, .nil⟩
  simpa [Path.join] using hempty.join hp

/-- Below an absolute path, a name is joined to it. -/
theorem Spelt.below {base piece : String} {k : Nat} {parts : List String} (h : Spelt base k parts)
    (hk : 0 < k) (hp : IsName piece) : below base piece = Path.join base piece := by
  have hjoin := h.join hp
  have hne : Path.join base piece ≠ "" := fun hempty => by
    have hzero := (hjoin.eq_empty.mp hempty).1
    omega
  have hroot : root (Path.join base piece) = root base := by
    rw [root, root, hjoin.rootSlashes, h.rootSlashes]
  rw [Path.below, hp.spelt.isAbsolute, if_neg (by simp), h.steps, hp.spelt.steps, ← hroot,
    hjoin.assemble hne]

/-- Every absolute normal form is made of slashes and names. -/
theorem exists_spelt {path : String} (h : Normal path) (ha : Path.isAbsolute path = true) :
    ∃ k parts, 0 < k ∧ Spelt path k parts := by
  have hk : 0 < Path.rootSlashes path := by simpa [Path.isAbsolute] using ha
  rcases normalize_cases path with ⟨_, hroot⟩ | ⟨_, htext⟩
  · omega
  · rw [h] at htext
    exact ⟨_, _, hk, rootSlashes_le path, htext, kept_components path⟩

end Path

namespace FileTree

variable {t : FileTree}

theorem spelt_pathText {names : List String} (h : ∀ name ∈ names, Path.IsName name) :
    Path.Spelt (pathText names) 1 names where
  bound := by omega
  text := by simp [pathText, Path.spelled, String.toList_intercalate]
  kept := Path.kept_of_isName fun name hm => h name (List.mem_reverse.mp hm)

theorem spelt_root : Path.Spelt "/" 1 [] :=
  ⟨by omega, rfl, .nil⟩

theorem eq_pathText {path : String} {names : List String} (h : Path.Spelt path 1 names) :
    path = pathText names := by
  rw [← String.toList_inj, h.text]
  simp [pathText, Path.spelled, String.toList_intercalate]

/-- Where the pieces of a path lead from a place, if no link is on the way. -/
def namesFrom (start parts : List String) : List String :=
  (parts.foldl (Path.pushPiece true) start.reverse).reverse

theorem namesFrom_nil (start : List String) : namesFrom start [] = start := by
  simp [namesFrom]

theorem namesFrom_name (start parts : List String) {piece : String} (h : Path.IsName piece) :
    namesFrom start (parts ++ [piece]) = namesFrom start parts ++ [piece] := by
  simp [namesFrom, Path.pushPiece, h.nonempty, h.notHere, h.notUp]

theorem namesFrom_names (start : List String) {names : List String}
    (h : ∀ name ∈ names, Path.IsName name) : namesFrom start names = start ++ names := by
  induction names using List.reverseRecOn with
  | nil => rw [namesFrom_nil, List.append_nil]
  | append_singleton names name ih =>
    rw [namesFrom_name _ _ (h name (by simp)), ih fun other hm => h other (by simp [hm]),
      List.append_assoc]

theorem namesFrom_up {start parts : List String}
    (h : ∀ name ∈ namesFrom start parts, Path.IsName name) :
    namesFrom start (parts ++ [".."]) = (namesFrom start parts).dropLast := by
  unfold namesFrom at *
  rw [List.foldl_append]
  cases hkept : parts.foldl (Path.pushPiece true) start.reverse with
  | nil => simp [Path.pushPiece]
  | cons name kept =>
    have hname := (h name (by simp [hkept])).notUp
    simp [Path.pushPiece, hname]

/-- The directory that a path with so many slashes at its front is seen from. -/
def origin (t : FileTree) (k : Nat) : List String :=
  if k = 0 then t.cwd else []

/-- The names that a path stands for, if no link is on the way. -/
def namesOf (t : FileTree) (k : Nat) (parts : List String) : List String :=
  namesFrom (t.origin k) parts

/-- A path in normal form is made absolute as the text of the names that it stands for. -/
theorem absolute_eq {path : String} {k : Nat} {parts : List String}
    (hcwd : ∀ name ∈ t.cwd, Path.IsName name) (hk : k ≤ 1) (h : Path.Spelt path k parts) :
    t.absolute path = pathText (t.namesOf k parts) := by
  cases k with
  | succ k =>
    obtain rfl : k = 0 := by omega
    have hne : path ≠ "" := fun hempty => by simpa using h.eq_empty.mp hempty
    have hfold := h.kept.foldl_reverse
    rw [List.reverse_reverse] at hfold
    rw [t.absolute_of_normal (by simpa using h.isAbsolute) (h.normal hne), namesOf, namesFrom]
    simp only [Nat.zero_add, Nat.lt_add_one, decide_true] at hfold
    simp [origin, hfold, eq_pathText h]
  | zero =>
    have hrel : Path.isAbsolute path = false := by simpa using h.isAbsolute
    have hbase : Path.Spelt t.cwdText 1 t.cwd := spelt_pathText hcwd
    have hparts : Path.components (Path.join t.cwdText path) = t.namesOf 0 parts := by
      have habs : Path.isAbsolute (Path.join t.cwdText path) = true := by
        rw [Path.isAbsolute, hbase.rootSlashes_join Nat.one_pos hrel]
        rfl
      have hfold := hbase.kept.foldl_reverse
      rw [List.reverse_reverse] at hfold
      rw [Path.components, habs, hbase.pieces_join Nat.one_pos hrel, h.pieces, namesOf, origin,
        if_pos rfl, namesFrom, List.append_assoc, List.foldl_append, Path.foldl_pushPiece_empty,
        List.foldl_append]
      simp only [Nat.lt_add_one, decide_true] at hfold
      rw [hfold]
      split
      next hnil => simp [hnil, Path.pushPiece]
      next => rfl
    have hroot : Path.root (Path.join t.cwdText path) = "/" := by
      rw [Path.root, hbase.rootSlashes_join Nat.one_pos hrel]
      rfl
    rw [absolute, Path.absolute, Path.normalize, hparts, hroot, Path.assemble, if_neg (by simp)]
    rfl

end FileTree

end NPlusOne
