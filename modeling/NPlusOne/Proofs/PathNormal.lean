import NPlusOne.FileTree
import NPlusOne.Program.Node

namespace NPlusOne

namespace Text

theorem dropLead?_eq_some {lead text rest : List Char} :
    dropLead? lead text = some rest ↔ text = lead ++ rest := by
  induction lead generalizing text with
  | nil => simp [dropLead?]
  | cons a lead ih =>
    cases text with
    | nil => simp [dropLead?]
    | cons b text =>
      by_cases h : a = b
      · simp [dropLead?, h, ih]
      · simp [dropLead?, h, Ne.symm h]

theorem startsWith_iff {lead text : List Char} : startsWith lead text = true ↔ lead <+: text := by
  rw [startsWith, Option.isSome_iff_exists]
  exact exists_congr fun rest => dropLead?_eq_some.trans eq_comm

theorem splitWhere_eq_splitOnP (p : Char → Bool) (text : List Char) :
    splitWhere p text = text.splitOnP p := by
  induction text with
  | nil => rfl
  | cons c text ih =>
    rw [splitWhere, List.splitOnP_cons_eq_if_modifyHead, ih]
    have hne := List.splitOnP_ne_nil p text
    split
    next => rfl
    next =>
      cases hpieces : text.splitOnP p with
      | nil => exact absurd hpieces hne
      | cons piece rest => rfl

theorem splitOn_eq (c : Char) (text : List Char) : splitOn c text = text.splitOn c := by
  unfold splitOn
  rw [splitWhere_eq_splitOnP, List.splitOn_eq_splitOnP]
  congr 1

theorem not_mem_of_mem_splitOn {c : Char} {text piece : List Char} (h : piece ∈ splitOn c text) :
    c ∉ piece := by
  unfold splitOn at h
  induction text generalizing piece with
  | nil => simp_all [splitWhere]
  | cons d text ih =>
    rw [splitWhere] at h
    split at h
    next =>
      rcases List.mem_cons.mp h with rfl | h
      · simp
      · exact ih h
    next hd =>
      have hne : c ≠ d := fun heq => hd (by simp [heq])
      split at h
      next hsplit => exact absurd hsplit (splitWhere_ne_nil _ text)
      next first rest hsplit =>
        rw [hsplit] at ih
        rcases List.mem_cons.mp h with rfl | h
        · exact List.not_mem_cons_of_ne_of_not_mem hne (ih List.mem_cons_self)
        · exact ih (List.mem_cons_of_mem _ h)

end Text

namespace Path

def Normal (p : String) : Prop :=
  normalize p = p

/-- The reversed lists of pieces that a normal form is made of: names, and behind them as many `..`
as a relative path needs. -/
inductive Kept (rooted : Bool) : List String → Prop
  | nil : Kept rooted []
  | up (n : Nat) : rooted = false → Kept rooted (List.replicate (n + 1) "..")
  | name {piece : String} {kept : List String} : piece ≠ "" → piece ≠ "." → piece ≠ ".." →
    '/' ∉ piece.toList → Kept rooted kept → Kept rooted (piece :: kept)

theorem Kept.push {rooted : Bool} {kept : List String} (h : Kept rooted kept) {piece : String}
    (hs : '/' ∉ piece.toList) : Kept rooted (pushPiece rooted kept piece) := by
  unfold pushPiece
  split
  next => exact h
  next hne =>
    simp only [Bool.or_eq_true, decide_eq_true_eq, not_or] at hne
    split
    next hup =>
      cases h with
      | nil =>
        cases rooted with
        | true => exact .nil
        | false => exact .up 0 rfl
      | up n hr => exact .up (n + 1) hr
      | name _ _ hname _ hrest => simpa [hname] using hrest
    next hup => exact .name hne.1 hne.2 hup hs h

theorem kept_foldl {rooted : Bool} {kept pieces : List String} (h : Kept rooted kept)
    (hs : ∀ piece ∈ pieces, '/' ∉ piece.toList) :
    Kept rooted (pieces.foldl (pushPiece rooted) kept) := by
  induction pieces generalizing kept with
  | nil => exact h
  | cons piece pieces ih =>
    exact ih (h.push (hs piece List.mem_cons_self))
      fun other ho => hs other (List.mem_cons_of_mem piece ho)

theorem not_slash_of_mem_pieces {p piece : String} (h : piece ∈ pieces p) : '/' ∉ piece.toList := by
  obtain ⟨chars, hmem, rfl⟩ := List.mem_map.mp h
  simpa using Text.not_mem_of_mem_splitOn hmem

theorem kept_components (p : String) : Kept (isAbsolute p) (components p).reverse := by
  rw [components, List.reverse_reverse]
  exact kept_foldl .nil fun _ => not_slash_of_mem_pieces

/-- Pieces of a normal form stay as they are when they are worked out once more. -/
theorem Kept.foldl_reverse {rooted : Bool} {kept : List String} (h : Kept rooted kept) :
    kept.reverse.foldl (pushPiece rooted) [] = kept := by
  induction h with
  | nil => rfl
  | up n hr =>
    subst hr
    rw [List.reverse_replicate]
    induction n with
    | zero => rfl
    | succ n ih =>
      rw [List.replicate_succ', List.foldl_append, ih, ← List.replicate_succ']
      rfl
  | name hempty hdot hup _ _ ih =>
    rw [List.reverse_cons, List.foldl_append, ih]
    simp [pushPiece, hempty, hdot, hup]

theorem Kept.mem {rooted : Bool} {kept : List String} (h : Kept rooted kept) {piece : String}
    (hm : piece ∈ kept) : piece ≠ "" ∧ '/' ∉ piece.toList := by
  induction h with
  | nil => cases hm
  | up n =>
    rw [List.eq_of_mem_replicate hm]
    decide
  | name hempty _ _ hs _ ih =>
    rcases List.mem_cons.mp hm with rfl | hm
    · exact ⟨hempty, hs⟩
    · exact ih hm

/-- The text of pieces behind `k` slashes. -/
def spelled (k : Nat) (parts : List String) : List Char :=
  List.replicate k '/' ++ ['/'].intercalate (parts.map String.toList)

theorem head?_intercalate {parts : List String}
    (h : ∀ piece ∈ parts, piece ≠ "" ∧ '/' ∉ piece.toList) :
    (['/'].intercalate (parts.map String.toList)).head? ≠ some '/' := by
  cases parts with
  | nil => simp
  | cons piece rest =>
    obtain ⟨hne, hs⟩ := h piece List.mem_cons_self
    obtain ⟨c, cs, hc⟩ := List.exists_cons_of_ne_nil (l := piece.toList) (by simpa using hne)
    have hslash : c ≠ '/' := by
      rintro rfl
      simp [hc] at hs
    cases rest with
    | nil => simpa [hc] using hslash
    | cons other rest => simpa [hc, List.intercalate_cons_cons] using hslash

theorem rootSlashes_le (p : String) : rootSlashes p ≤ 2 := by
  unfold rootSlashes
  split <;> omega

theorem rootSlashes_eq {k : Nat} (hk : k ≤ 2) {p : String} {chars : List Char}
    (hp : p.toList = List.replicate k '/' ++ chars) (hc : chars.head? ≠ some '/') :
    rootSlashes p = k := by
  unfold rootSlashes
  rw [hp]
  have hcases : k = 0 ∨ k = 1 ∨ k = 2 := by omega
  -- Behind the slashes of the root comes none, so their number decides.
  cases chars with
  | nil => rcases hcases with rfl | rfl | rfl <;> rfl
  | cons c chars =>
    have hslash : c ≠ '/' := by simpa using hc
    rcases hcases with rfl | rfl | rfl <;> simp [List.replicate_succ, hslash]

theorem pieces_spelled {k : Nat} {p : String} {parts : List String}
    (hp : p.toList = spelled k parts) (hs : ∀ piece ∈ parts, '/' ∉ piece.toList) :
    pieces p = List.replicate k "" ++ if parts = [] then [""] else parts := by
  have hbody : Text.splitOn '/' (['/'].intercalate (parts.map String.toList)) =
      if parts = [] then [[]] else parts.map String.toList := by
    rw [Text.splitOn_eq]
    split
    next hnil => simp [hnil]
    next hne =>
      refine List.splitOn_intercalate '/' ?_ (by simpa using hne)
      simpa using hs
  have hslashes : ∀ k chars, Text.splitOn '/' (List.replicate k '/' ++ chars) =
      List.replicate k [] ++ Text.splitOn '/' chars := by
    intro k chars
    induction k with
    | zero => rfl
    | succ k ih =>
      rw [List.replicate_succ, List.replicate_succ, List.cons_append, List.cons_append, ← ih]
      rfl
  rw [pieces, hp, spelled, hslashes, hbody]
  split <;> simp

theorem foldl_pushPiece_empty (rooted : Bool) (n : Nat) (kept : List String) :
    (List.replicate n "").foldl (pushPiece rooted) kept = kept := by
  induction n with
  | zero => rfl
  | succ n ih => simpa [List.replicate_succ, pushPiece] using ih

theorem components_spelled {k : Nat} (hk : k ≤ 2) {p : String} {parts : List String}
    (hp : p.toList = spelled k parts) (h : Kept (0 < k) parts.reverse) :
    rootSlashes p = k ∧ components p = parts := by
  have hmem : ∀ piece ∈ parts, piece ≠ "" ∧ '/' ∉ piece.toList :=
    fun piece hm => h.mem (List.mem_reverse.mpr hm)
  have hroot := rootSlashes_eq hk hp (head?_intercalate hmem)
  have hfold := h.foldl_reverse
  rw [List.reverse_reverse] at hfold
  refine ⟨hroot, ?_⟩
  rw [components, pieces_spelled hp fun piece hm => (hmem piece hm).2, List.foldl_append,
    foldl_pushPiece_empty, isAbsolute, hroot]
  split
  next hnil => simp [hnil, pushPiece]
  next => rw [hfold, List.reverse_reverse]

theorem toList_root_append (p : String) (parts : List String) :
    (root p ++ "/".intercalate parts).toList = spelled (rootSlashes p) parts := by
  simp [root, spelled, String.toList_intercalate]

theorem normalize_cases (p : String) : normalize p = "." ∧ rootSlashes p = 0 ∨
    normalize p ≠ "" ∧ (normalize p).toList = spelled (rootSlashes p) (components p) := by
  have htext := toList_root_append p (components p)
  unfold normalize assemble
  dsimp only
  split
  next hempty =>
    refine .inl ⟨rfl, ?_⟩
    rw [hempty] at htext
    have hslashes := (List.nil_eq_append_iff.mp htext).1
    simpa using hslashes.symm
  next hne => exact .inr ⟨hne, htext⟩

theorem rootSlashes_normalize (p : String) : rootSlashes (normalize p) = rootSlashes p := by
  rcases normalize_cases p with ⟨hdot, hroot⟩ | ⟨_, htext⟩
  · rw [hdot, hroot]
    rfl
  · exact (components_spelled (rootSlashes_le p) htext (kept_components p)).1

/-- A normal form is its own normal form. -/
theorem normal_normalize (p : String) : Normal (normalize p) := by
  rcases normalize_cases p with ⟨hdot, _⟩ | ⟨hne, htext⟩
  · rw [hdot]
    exact (by decide : normalize "." = ".")
  · obtain ⟨hroot, hparts⟩ := components_spelled (rootSlashes_le p) htext (kept_components p)
    have hsame :
        root (normalize p) ++ "/".intercalate (components (normalize p)) = normalize p := by
      rw [← String.toList_inj, toList_root_append, hroot, hparts, htext]
    rw [Normal, normalize, assemble, hsame, if_neg hne]

theorem isAbsolute_iff {p : String} : isAbsolute p = true ↔ p.toList.head? = some '/' := by
  unfold isAbsolute rootSlashes
  split
  next hp => simp [hp]
  next _ hp => simp [hp]
  next _ _ hp => simp [hp]
  next hp =>
    cases htext : p.toList with
    | nil => simp
    | cons c rest =>
      have hslash : c ≠ '/' := by
        rintro rfl
        exact hp rest htext
      simp [hslash]

theorem isAbsolute_join {base : String} (hb : isAbsolute base = true) (p : String) :
    isAbsolute (join base p) = true := by
  have hhead := isAbsolute_iff.mp hb
  unfold join
  split
  next h =>
    simp only [Bool.or_eq_true, decide_eq_true_eq] at h
    rcases h with hp | rfl
    · exact hp
    · simp at hhead
  next => split <;> rw [isAbsolute_iff] <;> simp [List.head?_append, hhead]

theorem isAbsolute_normalize {p : String} (h : isAbsolute p = true) :
    isAbsolute (normalize p) = true := by
  unfold isAbsolute at *
  rwa [rootSlashes_normalize]

end Path

namespace FileTree

variable (t : FileTree)

theorem normal_absolute (p : String) : Path.Normal (t.absolute p) :=
  Path.normal_normalize _

theorem isAbsolute_absolute (p : String) : Path.isAbsolute (t.absolute p) = true := by
  have hcwd : Path.isAbsolute t.cwdText = true := by
    rw [Path.isAbsolute_iff]
    simp [cwdText, pathText]
  exact Path.isAbsolute_normalize (Path.isAbsolute_join hcwd p)

theorem absolute_of_normal {p : String} (ha : Path.isAbsolute p = true) (hp : Path.Normal p) :
    t.absolute p = p := by
  have hjoin : Path.join t.cwdText p = p := by simp [Path.join, ha]
  rw [absolute, Path.absolute, hjoin, hp]

/-- Seen from anywhere, the absolute form of a path stays as it is. -/
theorem absolute_absolute (t' : FileTree) (p : String) :
    t'.absolute (t.absolute p) = t.absolute p :=
  t'.absolute_of_normal (t.isAbsolute_absolute p) (t.normal_absolute p)

end FileTree

theorem Node.normal_file? {n : Node} {file : String} (h : n.file? = some file) :
    Path.Normal file := by
  obtain ⟨place, _, rfl⟩ := Option.map_eq_some_iff.mp h
  exact Path.normal_normalize _

end NPlusOne
