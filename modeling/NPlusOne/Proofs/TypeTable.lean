import Mathlib.Data.List.TakeWhile
import NPlusOne.Proofs.LoopSites
import NPlusOne.Proofs.PathSpelling
import NPlusOne.Proofs.TypeRegistration

namespace NPlusOne

/-- The element has the property, and no element that has it stands at an earlier site. -/
def First {α : Type} (placed : List Nat → α → Prop) (p : α → Prop) (a : α) : Prop :=
  ∃ site, placed site a ∧ p a ∧
    ∀ site' a', placed site' a' → p a' → site' = site ∨ List.Lex (· < ·) site site'

theorem First.unique {α : Type} {placed : List Nat → α → Prop} {p : α → Prop} {a b : α}
    (ha : First placed p a) (hb : First placed p b)
    (hplaced : ∀ site a b, placed site a → placed site b → a = b) : a = b := by
  obtain ⟨site, hsite, hpa, hfirst⟩ := ha
  obtain ⟨site', hsite', hpb, hfirst'⟩ := hb
  have heq : site' = site := by
    rcases hfirst site' b hsite' hpb with heq | hlt
    · exact heq
    · rcases hfirst' site a hsite hpa with heq | hlt'
      · exact heq.symm
      · exact absurd hlt' (asymm (r := List.Lex (· < ·)) hlt)
  rw [heq] at hsite'
  exact hplaced site a b hsite hsite'

namespace Enumerates

variable {α : Type} {placed : List Nat → α → Prop} {found : List α}

theorem placed_unique (h : Enumerates placed found) {site : List Nat} {a b : α}
    (ha : placed site a) (hb : placed site b) : a = b := by
  obtain ⟨sites, _, hsorted, hmem⟩ := h
  have hnodup : (sites.map Prod.fst).Nodup := by
    refine List.pairwise_map.mpr (hsorted.imp fun {x y} hlt heq => ?_)
    rw [heq] at hlt
    exact irrefl (r := List.Lex (· < ·)) y.1 hlt
  have heq := List.inj_on_of_nodup_map hnodup ((hmem site a).mpr ha) ((hmem site b).mpr hb) rfl
  exact congrArg Prod.snd heq

/-- A search finds the element with the first site. -/
theorem find?_eq_some_iff (h : Enumerates placed found) {p : α → Bool} {a : α} :
    found.find? p = some a ↔ First placed (p · = true) a := by
  have hfirst : ∀ {b}, found.find? p = some b → First placed (p · = true) b := by
    intro b hb
    rw [← List.findSome?_guard] at hb
    obtain ⟨site, b', hplaced, hvalue, hbefore⟩ := h.findSome?_eq_some hb
    obtain ⟨rfl, hp⟩ := Option.guard_eq_some_iff.mp hvalue
    exact ⟨site, hplaced, hp, fun site' a' ha' hp' =>
      hbefore site' a' ha' (by simp [Option.guard, hp'])⟩
  refine ⟨hfirst, fun ha => ?_⟩
  cases hfind : found.find? p with
  | some b => rw [ha.unique (hfirst hfind) fun _ _ _ => h.placed_unique]
  | none =>
    obtain ⟨site, hplaced, hp, _⟩ := ha
    rw [← List.findSome?_guard] at hfind
    have hnone := h.findSome?_eq_none hfind hplaced
    simp [Option.guard, hp] at hnone

end Enumerates

namespace First

variable {ι α : Type} {inside : ι → List Nat → α → Prop} {x : ι} {xs : List ι} {p : α → Prop}
  {a : α}

/-- What comes first in a part comes first in all parts from it on. -/
theorem head (h : First (inside x) p a) : First (Among inside (x :: xs)) p a := by
  obtain ⟨site, hplaced, hp, hfirst⟩ := h
  refine ⟨0 :: site, ⟨0, site, x, rfl, rfl, hplaced⟩, hp, ?_⟩
  rintro _ b ⟨i, rest, y, rfl, hy, hin⟩ hb
  cases i with
  | zero =>
    cases hy
    rcases hfirst rest b hin hb with rfl | hlt
    · exact .inl rfl
    · exact .inr (.cons hlt)
  | succ i => exact .inr (.rel (Nat.succ_pos i))

/-- A part without the property can be put in front. -/
theorem tail (hx : ∀ site b, inside x site b → ¬ p b) (h : First (Among inside xs) p a) :
    First (Among inside (x :: xs)) p a := by
  obtain ⟨_, ⟨i, rest, y, rfl, hy, hin⟩, hp, hfirst⟩ := h
  refine ⟨(i + 1) :: rest, ⟨i + 1, rest, y, rfl, hy, hin⟩, hp, ?_⟩
  rintro _ b ⟨j, rest', z, rfl, hz, hin'⟩ hb
  cases j with
  | zero =>
    cases hz
    exact absurd hb (hx rest' b hin')
  | succ j =>
    rcases hfirst (j :: rest') b ⟨j, rest', z, rfl, hz, hin'⟩ hb with heq | hlt
    · cases heq
      exact .inl rfl
    · exact .inr (Enumerates.lex_modifyHead (List.cons_ne_nil i rest) hlt)

end First

namespace Node

/-- A struct, class or union with a name. -/
structure IsNamedRecord (n : Node) : Prop where
  record : n.kind = .structDecl ∨ n.kind = .classDecl ∨ n.kind = .unionDecl
  named : n.spelling ≠ ""

/-- A declaration inside which types are looked for. -/
def IsTypeScope (n : Node) : Prop :=
  n.kind = .namespaceDecl ∨ n.kind = .linkageSpec ∨ n.kind = .unexposedDecl ∨ n.IsNamedRecord

/-- A declaration that gives a type a name. -/
structure NamesType (n : Node) : Prop where
  declares : n.kind = .structDecl ∨ n.kind = .classDecl ∨ n.kind = .unionDecl ∨
    n.kind = .typedefDecl ∨ n.kind = .typeAliasDecl
  named : n.spelling ≠ ""

/-- What a scope puts before the names inside it: namespaces and records their own name, if they
have one, linkage specifications and unexposed declarations nothing. -/
def qualifier (n : Node) : String :=
  if n.kind = .linkageSpec ∨ n.kind = .unexposedDecl ∨ n.spelling = "" then ""
  else n.spelling ++ "::"

/-- The name of a declaration with the scopes around it, the outermost first. -/
def qualified : List Node → Node → String
  | [], n => n.spelling
  | scope :: scopes, n => scope.qualifier ++ qualified scopes n

/-- The site leads through scopes to a declaration that names a type. -/
def TypeAt (outer : String) (n : Node) (site : List Nat) (entry : String × Node) : Prop :=
  ∃ scopes, n.Descent site scopes entry.2 ∧ (∀ m ∈ scopes, m.IsTypeScope) ∧ entry.2.NamesType ∧
    entry.1 = outer ++ qualified scopes entry.2

/-- The site leads through scopes to a scope. -/
def ScopeAt (n : Node) (site : List Nat) (m : Node) : Prop :=
  ∃ scopes, n.Descent site scopes m ∧ (∀ x ∈ scopes, x.IsTypeScope) ∧ m.IsTypeScope

variable {outer : String} {n m : Node} {site : List Nat} {entry : String × Node}

theorem typeAt_iff : n.TypeAt outer site entry ↔
    (site = [] ∧ entry = (outer ++ n.spelling, n)) ∧ n.NamesType ∨
      n.IsTypeScope ∧ Among (TypeAt (outer ++ n.qualifier)) n.subtrees site entry := by
  obtain ⟨name, d⟩ := entry
  constructor
  · rintro ⟨scopes, hdescent, hscopes, hd, hname⟩
    cases hdescent with
    | here => exact .inl ⟨⟨rfl, Prod.ext hname rfl⟩, hd⟩
    | @down _ c _ i site above hc hdescent =>
      obtain ⟨hn, habove⟩ := List.forall_mem_cons.mp hscopes
      refine .inr ⟨hn, i, site, c, rfl, hc, above, hdescent, habove, hd, ?_⟩
      rw [String.append_assoc]
      exact hname
  · rintro (⟨⟨rfl, heq⟩, hd⟩ | ⟨hn, i, rest, c, rfl, hc, above, hdescent, habove, hd, hname⟩)
    · cases heq
      exact ⟨[], .here n, by simp, hd, rfl⟩
    · rw [String.append_assoc] at hname
      exact ⟨n :: above, .down hc hdescent, List.forall_mem_cons.mpr ⟨hn, habove⟩, hd, hname⟩

theorem typeAt_of_scope (hn : n.IsTypeScope) (hnames : ¬ n.NamesType) :
    n.TypeAt outer site entry ↔
      Among (TypeAt (outer ++ n.qualifier)) n.subtrees site entry := by
  rw [typeAt_iff, or_iff_right fun hself => hnames hself.2, and_iff_right hn]

theorem typeAt_of_record (hn : n.IsTypeScope) (hnames : n.NamesType) :
    n.TypeAt outer site entry ↔ site = [] ∧ entry = (outer ++ n.spelling, n) ∨
      Among (TypeAt (outer ++ n.qualifier)) n.subtrees site entry := by
  rw [typeAt_iff, and_iff_left hnames, and_iff_right hn]

theorem scopeAt_iff : n.ScopeAt site m ↔
    n.IsTypeScope ∧ (site = [] ∧ m = n ∨ Among ScopeAt n.subtrees site m) := by
  constructor
  · rintro ⟨scopes, hdescent, hscopes, hm⟩
    cases hdescent with
    | here => exact ⟨hm, .inl ⟨rfl, rfl⟩⟩
    | @down _ c _ i site above hc hdescent =>
      obtain ⟨hn, habove⟩ := List.forall_mem_cons.mp hscopes
      exact ⟨hn, .inr ⟨i, site, c, rfl, hc, above, hdescent, habove, hm⟩⟩
  · rintro ⟨hn, ⟨rfl, rfl⟩ | ⟨i, rest, c, rfl, hc, above, hdescent, habove, hm⟩⟩
    · exact ⟨[], .here m, by simp, hn⟩
    · exact ⟨n :: above, .down hc hdescent, List.forall_mem_cons.mpr ⟨hn, habove⟩, hm⟩

theorem scopeAt_of_scope (hn : n.IsTypeScope) (site : List Nat) (m : Node) :
    n.ScopeAt site m ↔ site = [] ∧ m = n ∨ Among ScopeAt n.subtrees site m := by
  rw [scopeAt_iff, and_iff_right hn]

/-- What comes of reading types: all of them in source order, if every scope that is met can be
opened, and otherwise the failure of the first one that cannot. -/
inductive Reads (typeAt : List Nat → String × Node → Prop) (scopeAt : List Nat → Node → Prop) :
    Except Failure (List (String × Node)) → Prop
  | listed {found} : Enumerates typeAt found →
    (∀ site m, scopeAt site m → m.info.failure = none) → Reads typeAt scopeAt (.ok found)
  | torn {m reason} : First scopeAt (·.info.failure ≠ none) m → m.info.failure = some reason →
    Reads typeAt scopeAt (.error (.children reason))

namespace Reads

variable {typeAt : List Nat → String × Node → Prop} {scopeAt : List Nat → Node → Prop}
  {result : Except Failure (List (String × Node))} {reason : String}

section Root

variable (hscope : ∀ site m, scopeAt site m ↔
  site = [] ∧ m = n ∨ Among ScopeAt n.subtrees site m)
include hscope

theorem closed (hf : n.info.failure = some reason) :
    Reads typeAt scopeAt (.error (.children reason)) := by
  refine .torn ⟨[], (hscope [] n).mpr (.inl ⟨rfl, rfl⟩), by simp [hf], ?_⟩ hf
  intro site' m' _ _
  cases site' with
  | nil => exact .inl rfl
  | cons => exact .inr .nil

/-- Where a node can be opened, its types are read as those of its children are. -/
theorem opened (hf : n.info.failure = none) {inner : List Nat → String × Node → Prop}
    (h : Reads inner (Among ScopeAt n.subtrees) result)
    {f : List (String × Node) → List (String × Node)}
    (htypes : ∀ found, Enumerates inner found → Enumerates typeAt (f found)) :
    Reads typeAt scopeAt (result.map f) := by
  cases h with
  | @listed found hfound hintact =>
    refine .listed (htypes found hfound) fun site m hm => ?_
    rcases (hscope site m).mp hm with ⟨_, rfl⟩ | hbelow
    · exact hf
    · exact hintact site m hbelow
  | torn hfirst hm =>
    obtain ⟨site, hplaced, htorn, hbefore⟩ := hfirst
    refine .torn ⟨site, (hscope site _).mpr (.inr hplaced), htorn, fun site' m' hm' htorn' => ?_⟩ hm
    rcases (hscope site' m').mp hm' with ⟨_, rfl⟩ | hbelow
    · exact absurd hf htorn'
    · exact hbefore site' m' hbelow htorn'

theorem through (hf : n.info.failure = none) {inner : List Nat → String × Node → Prop}
    (h : Reads inner (Among ScopeAt n.subtrees) result)
    (htypes : ∀ site entry, inner site entry ↔ typeAt site entry) :
    Reads typeAt scopeAt result := by
  have hread := opened hscope hf h (f := fun found => found) fun _ hfound => hfound.of_iff htypes
  cases result <;> exact hread

end Root

theorem leaf (hn : ¬ n.IsTypeScope) (hnames : n.NamesType) :
    Reads (n.TypeAt outer) n.ScopeAt (.ok [(outer ++ n.spelling, n)]) := by
  refine .listed (.singleton fun site entry => ?_) fun site m hm => ?_
  · rw [typeAt_iff, and_iff_left hnames, or_iff_left fun hscope => hn hscope.1]
  · exact absurd (scopeAt_iff.mp hm).1 hn

theorem nothing (hn : ¬ n.IsTypeScope) (hnames : ¬ n.NamesType) :
    Reads (n.TypeAt outer) n.ScopeAt (.ok []) := by
  refine .listed (.nil fun site entry h => ?_) fun site m hm => ?_
  · rcases typeAt_iff.mp h with hself | hscope
    · exact hnames hself.2
    · exact hn hscope.1
  · exact absurd (scopeAt_iff.mp hm).1 hn

end Reads

theorem isTypeScope_iff : n.IsTypeScope ↔
    n.kind.holdsTypes = true ∨ n.kind.isRecord = true ∧ n.spelling ≠ "" := by
  have hrecord : n.IsNamedRecord ↔ n.kind.isRecord = true ∧ n.spelling ≠ "" := by
    refine ⟨fun h => ⟨?_, h.named⟩, fun h => ⟨?_, h.2⟩⟩
    · rcases h.record with hkind | hkind | hkind <;> rw [hkind] <;> rfl
    · have hkind := h.1
      revert hkind
      cases n.kind <;> simp [NodeKind.isRecord]
  rw [IsTypeScope, hrecord]
  cases n.kind <;> simp [NodeKind.holdsTypes, NodeKind.isRecord]

theorem namesType_iff : n.NamesType ↔ n.kind.namesType = true ∧ n.spelling ≠ "" := by
  refine ⟨fun h => ⟨?_, h.named⟩, fun h => ⟨?_, h.2⟩⟩
  · rcases h.declares with hkind | hkind | hkind | hkind | hkind <;> rw [hkind] <;> rfl
  · have hkind := h.1
    revert hkind
    cases n.kind <;> simp [NodeKind.namesType]

theorem qualifier_of_holdsTypes (h : n.kind.holdsTypes = true) :
    outer ++ n.qualifier = if n.spelling ≠ "" && n.kind = .namespaceDecl
      then outer ++ n.spelling ++ "::" else outer := by
  unfold qualifier
  by_cases hname : n.spelling = ""
  · simp [hname]
  · revert h
    cases n.kind <;> simp [NodeKind.holdsTypes, hname, String.append_assoc]

theorem qualifier_of_isRecord (h : n.kind.isRecord = true) (hname : n.spelling ≠ "") :
    outer ++ n.qualifier = outer ++ n.spelling ++ "::" := by
  unfold qualifier
  revert h
  cases n.kind <;> simp [NodeKind.isRecord, hname, String.append_assoc]

theorem namesType_of_isRecord {kind : NodeKind} (h : kind.isRecord = true) :
    kind.namesType = true := by
  revert h
  cases kind <;> simp [NodeKind.isRecord, NodeKind.namesType]

mutual

/-- The types of a tree are listed in source order, unless a scope cannot be opened. -/
theorem reads_typeNames (outer : String) (n : Node) :
    Reads (n.TypeAt outer) n.ScopeAt (typeNames outer n) := by
  obtain ⟨id, info, children⟩ := n
  have hinside := fun scope => reads_typeNamesAll scope children
  rw [typeNames]
  split
  next hholds =>
    -- A namespace or the like holds types and is none itself.
    have hscope : (Node.mk id info children).IsTypeScope := isTypeScope_iff.mpr (.inl hholds)
    have hnames : ¬ (Node.mk id info children).NamesType := by
      rw [namesType_iff]
      intro h
      have hkind : info.kind.namesType = true := h.1
      revert hholds hkind
      cases info.kind <;> simp [NodeKind.holdsTypes, NodeKind.namesType]
    have hqualifier : outer ++ (Node.mk id info children).qualifier =
        if info.spelling ≠ "" && info.kind = .namespaceDecl
          then outer ++ info.spelling ++ "::" else outer := qualifier_of_holdsTypes hholds
    rw [← hqualifier]
    cases hf : info.failure with
    | some reason => exact .closed (scopeAt_of_scope hscope) hf
    | none =>
      exact .through (scopeAt_of_scope hscope) hf (hinside _) fun site entry =>
        (typeAt_of_scope hscope hnames).symm
  next hholds =>
    split
    next hnamed =>
      have hkind : info.kind.namesType = true ∧ info.spelling ≠ "" := by simpa using hnamed
      have hnames : (Node.mk id info children).NamesType := namesType_iff.mpr hkind
      split
      next hrecord =>
        -- A record with a name is a type, listed before those that it holds.
        have hscope : (Node.mk id info children).IsTypeScope :=
          isTypeScope_iff.mpr (.inr ⟨hrecord, hkind.2⟩)
        have hqualifier : outer ++ (Node.mk id info children).qualifier =
            outer ++ info.spelling ++ "::" := qualifier_of_isRecord hrecord hkind.2
        simp only [← hqualifier]
        cases hf : info.failure with
        | some reason => exact .closed (scopeAt_of_scope hscope) hf
        | none =>
          have hread := Reads.opened (scopeAt_of_scope hscope) hf (hinside
            (outer ++ (Node.mk id info children).qualifier)) fun found hfound =>
              hfound.above fun site entry => typeAt_of_record hscope hnames
          cases hinner : typeNamesAll (outer ++ (Node.mk id info children).qualifier) children with
          | ok inner =>
            rw [hinner] at hread
            exact hread
          | error e =>
            rw [hinner] at hread
            exact hread
      next hrecord =>
        refine .leaf (fun hscope => ?_) hnames
        rcases isTypeScope_iff.mp hscope with h | h
        · exact hholds h
        · exact hrecord h.1
    next hnamed =>
      replace hnamed : ¬ (info.kind.namesType = true ∧ info.spelling ≠ "") := by simpa using hnamed
      refine .nothing (fun hscope => ?_) fun hnames => hnamed (namesType_iff.mp hnames)
      rcases isTypeScope_iff.mp hscope with h | h
      · exact hholds h
      · exact hnamed ⟨namesType_of_isRecord h.1, h.2⟩

theorem reads_typeNamesAll (outer : String) (ns : List Node) :
    Reads (Among (TypeAt outer) ns) (Among ScopeAt ns) (typeNamesAll outer ns) := by
  cases ns with
  | nil =>
    refine .listed .empty ?_
    rintro site m ⟨_, _, _, _, hx, _⟩
    simp at hx
  | cons n rest =>
    have hn := reads_typeNames outer n
    have hrest := reads_typeNamesAll outer rest
    rw [typeNamesAll]
    split
    next e he =>
      rw [he] at hn
      cases hn with
      | torn hfirst hm => exact .torn hfirst.head hm
    next these hthese =>
      rw [hthese] at hn
      cases hn with
      | listed hfound hintact =>
        split
        next e he =>
          rw [he] at hrest
          cases hrest with
          | torn hfirst hm =>
            exact .torn (hfirst.tail fun site b hb htorn => htorn (hintact site b hb)) hm
        next those hthose =>
          rw [hthose] at hrest
          cases hrest with
          | listed hfound' hintact' =>
            refine .listed (.cons hfound hfound') ?_
            rintro _ m ⟨i, site, c, rfl, hc, hm⟩
            cases i with
            | zero =>
              cases hc
              exact hintact site m hm
            | succ i => exact hintact' (i :: site) m ⟨i, site, c, rfl, hc, hm⟩

end

end Node

namespace Path

theorem intercalate_pieces (p : String) : "/".intercalate (pieces p) = p := by
  rw [← String.toList_inj, String.toList_intercalate, pieces, List.map_map]
  simp [Function.comp_def, Text.splitOn_eq, List.intercalate_splitOn]

/-- A path ends in another at a slash exactly if its last pieces are the other's. -/
theorem pieces_suffix_iff {p q : String} :
    pieces q <:+ pieces p ↔ p.endsWith ("/" ++ q) = true ∨ p = q := by
  rw [endsWith_iff]
  constructor
  · rintro ⟨front, hfront⟩
    have htext := congrArg "/".intercalate hfront
    rw [intercalate_pieces] at htext
    by_cases hnil : front = []
    · rw [hnil, List.nil_append, intercalate_pieces] at htext
      exact .inr htext.symm
    · have hq : pieces q ≠ [] := by
        simp [pieces, Text.splitOn_eq, List.splitOn_ne_nil]
      rw [String.intercalate_append_of_ne_nil hnil hq, intercalate_pieces,
        String.append_assoc] at htext
      exact .inl ⟨_, htext.symm⟩
  · rintro (⟨stem, rfl⟩ | rfl)
    · have happend : pieces (stem ++ ("/" ++ q)) = pieces stem ++ pieces q :=
        pieces_append (by simp)
      exact ⟨_, happend.symm⟩
    · exact List.suffix_rfl

end Path

namespace TranslationUnit

variable {u : TranslationUnit} {library name : String} {decl : Node} {reason : String}
  {e : Failure} {table : List (String × Node)}

/-- A file that the unit includes has the library's pieces at the end of its normal form. -/
def Includes (u : TranslationUnit) (library : String) : Prop :=
  ∃ file ∈ u.includes, Path.pieces (forwardSlashes library) <:+
    Path.pieces (forwardSlashes (Path.normalize file))

/-- The site leads from the top of the unit through scopes to a declaration of the type. -/
def TypeAt (u : TranslationUnit) : List Nat → String × Node → Prop :=
  Among (Node.TypeAt "") u.root.subtrees

/-- The site is that of the root, or leads from it through scopes to a scope. -/
def ScopeAt (u : TranslationUnit) (site : List Nat) (m : Node) : Prop :=
  site = [] ∧ m = u.root ∨ Among Node.ScopeAt u.root.subtrees site m

/-- The declaration that a qualified name stands for: the first in preorder. -/
def TypeNamed (u : TranslationUnit) (name : String) (decl : Node) : Prop :=
  First u.TypeAt (·.1 = name) (name, decl)

/-- Every scope can be opened. -/
def Intact (u : TranslationUnit) : Prop :=
  ∀ site m, u.ScopeAt site m → m.info.failure = none

/-- The first scope that cannot be opened gives the reason. -/
def TornBy (u : TranslationUnit) (reason : String) : Prop :=
  ∃ m, First u.ScopeAt (·.info.failure ≠ none) m ∧ m.info.failure = some reason

theorem includesLibrary_iff (hrelative : (forwardSlashes library).toList.head? ≠ some '/') :
    u.includesLibrary library = true ↔ u.Includes library := by
  have hdrop : (forwardSlashes library).toList.dropWhile (· = '/') =
      (forwardSlashes library).toList := by
    cases htext : (forwardSlashes library).toList with
    | nil => rfl
    | cons c rest =>
      rw [htext] at hrelative
      simpa using hrelative
  have hbare : String.ofList ((forwardSlashes library).toList.dropWhile (· = '/')) =
      forwardSlashes library := by
    rw [hdrop, String.ofList_toList]
  simp only [includesLibrary]
  rw [hbare]
  simp only [Includes, List.any_eq_true, Bool.or_eq_true, decide_eq_true_eq,
    Path.pieces_suffix_iff]

theorem reads_typeTable (u : TranslationUnit) : Node.Reads u.TypeAt u.ScopeAt u.typeTable := by
  have hscope : ∀ site m, u.ScopeAt site m ↔
      site = [] ∧ m = u.root ∨ Among Node.ScopeAt u.root.subtrees site m := fun _ _ => Iff.rfl
  unfold typeTable Node.children
  cases hf : u.root.info.failure with
  | some reason => exact .closed hscope hf
  | none =>
    exact .through hscope hf (Node.reads_typeNamesAll "" u.root.subtrees) fun _ _ => Iff.rfl

theorem intact_of_typeTable (h : u.typeTable = .ok table) : u.Intact := by
  have hread := u.reads_typeTable
  rw [h] at hread
  cases hread with
  | listed _ hintact => exact hintact

theorem find?_typeTable (h : u.typeTable = .ok table) :
    table.find? (·.1 = name) = some (name, decl) ↔ u.TypeNamed name decl := by
  have hread := u.reads_typeTable
  rw [h] at hread
  cases hread with
  | listed hfound _ =>
    rw [hfound.find?_eq_some_iff, TypeNamed]
    simp only [decide_eq_true_eq]

theorem ScopeAt.unique {site : List Nat} {m m' : Node} (h : u.ScopeAt site m)
    (h' : u.ScopeAt site m') : m = m' := by
  rcases h with ⟨rfl, rfl⟩ | ⟨i, rest, c, rfl, hc, _, hdescent, _⟩
  · rcases h' with ⟨_, rfl⟩ | ⟨_, _, _, hsite, _⟩
    · rfl
    · cases hsite
  · rcases h' with ⟨hsite, _⟩ | ⟨_, _, _, hsite, hc', _, hdescent', _⟩
    · cases hsite
    · cases hsite
      cases hc.symm.trans hc'
      exact (hdescent.unique hdescent').2

theorem TornBy.not_intact (h : u.TornBy reason) : ¬ u.Intact := by
  obtain ⟨m, ⟨site, hm, htorn, _⟩, _⟩ := h
  exact fun hintact => htorn (hintact site m hm)

theorem typeTable_eq_error : u.typeTable = .error e ↔
    ∃ reason, u.TornBy reason ∧ e = .children reason := by
  have hread := u.reads_typeTable
  constructor
  · intro he
    rw [he] at hread
    cases hread with
    | torn hfirst hm => exact ⟨_, ⟨_, hfirst, hm⟩, rfl⟩
  · rintro ⟨reason, htorn, rfl⟩
    generalize u.typeTable = result at hread
    cases hread with
    | listed _ hintact => exact absurd hintact htorn.not_intact
    | torn hfirst hm =>
      obtain ⟨m, hfirst', hm'⟩ := htorn
      cases hfirst.unique hfirst' fun _ _ _ => ScopeAt.unique
      cases hm.symm.trans hm'
      rfl

theorem exists_typeTable (h : u.Intact) : ∃ table, u.typeTable = .ok table := by
  cases htable : u.typeTable with
  | ok table => exact ⟨table, rfl⟩
  | error e =>
    obtain ⟨reason, htorn, _⟩ := typeTable_eq_error.mp htable
    exact absurd h htorn.not_intact

/-- The unit includes the library and has a type identity for the name. -/
structure Answers (u : TranslationUnit) (library name : String) (i : QueryType) : Prop where
  included : u.Includes library
  intact : u.Intact
  identity : ∃ decl, u.TypeNamed name decl ∧ u.identity? (u.typeOf decl) = some i

/-- The unit does not include the library, or it has no declaration under the name, or one without
a type identity. -/
def Passes (u : TranslationUnit) (library name : String) : Prop :=
  u.Includes library →
    u.Intact ∧ ∀ decl, u.TypeNamed name decl → u.identity? (u.typeOf decl) = none

section Lookup

variable (hrelative : (forwardSlashes library).toList.head? ≠ some '/')
include hrelative

theorem lookup?_eq_some_iff {i : QueryType} :
    u.lookup? library name = .ok (some i) ↔ u.Answers library name i := by
  rw [TypeLookup.lookup?_eq_some, includesLibrary_iff hrelative]
  constructor
  · rintro ⟨hincludes, table, decl, htable, hfind, hi⟩
    exact ⟨hincludes, intact_of_typeTable htable, decl, (find?_typeTable htable).mp hfind, hi⟩
  · rintro ⟨hincludes, hintact, decl, hdecl, hi⟩
    obtain ⟨table, htable⟩ := exists_typeTable hintact
    exact ⟨hincludes, table, decl, htable, (find?_typeTable htable).mpr hdecl, hi⟩

theorem lookup?_eq_error_iff :
    u.lookup? library name = .error e ↔
      u.Includes library ∧ ∃ reason, u.TornBy reason ∧ e = .children reason := by
  rw [← includesLibrary_iff hrelative, ← typeTable_eq_error, lookup?]
  cases u.includesLibrary library with
  | false => simp [pure, Except.pure]
  | true =>
    cases u.typeTable with
    | error e => simp [bind, Except.bind]
    | ok table =>
      cases hfind : table.find? (·.1 = name) <;>
        simp [bind, Except.bind, pure, Except.pure, hfind]

/-- A unit leaves the answer to the next one exactly if it passes the name. -/
theorem lookup?_eq_none_iff :
    u.lookup? library name = .ok none ↔ u.Passes library name := by
  constructor
  · intro h hincludes
    have hintact : u.Intact := by
      cases htable : u.typeTable with
      | ok table => exact intact_of_typeTable htable
      | error e =>
        have herror : u.lookup? library name = .error e := (lookup?_eq_error_iff hrelative).mpr
          ⟨hincludes, typeTable_eq_error.mp htable⟩
        cases h.symm.trans herror
    refine ⟨hintact, fun decl hdecl => ?_⟩
    cases hi : u.identity? (u.typeOf decl) with
    | none => rfl
    | some i =>
      have hsome := (lookup?_eq_some_iff hrelative).mpr ⟨hincludes, hintact, decl, hdecl, hi⟩
      cases h.symm.trans hsome
  · intro h
    cases hlookup : u.lookup? library name with
    | error e =>
      obtain ⟨hincludes, reason, htorn, _⟩ := (lookup?_eq_error_iff hrelative).mp hlookup
      exact absurd (h hincludes).1 htorn.not_intact
    | ok o =>
      cases o with
      | none => rfl
      | some i =>
        obtain ⟨hincludes, _, decl, hdecl, hi⟩ := (lookup?_eq_some_iff hrelative).mp hlookup
        cases hi.symm.trans ((h hincludes).2 decl hdecl)

end Lookup

end TranslationUnit

namespace TypeLookup

variable {units : List TranslationUnit} {library bare t : String} {e : Failure}

theorem search_eq_none (depth : Int) :
    search (.text library) depth bare units = .ok none ↔
      ∀ u ∈ units, u.lookup? library bare = .ok none := by
  induction units with
  | nil => simp [search]
  | cons u rest ih =>
    rw [List.forall_mem_cons, ← ih]
    cases hu : u.lookup? library bare with
    | error e => simp [search, libraryName, bind, Except.bind, hu]
    | ok o => cases o <;> simp [search, libraryName, bind, Except.bind, pure, Except.pure, hu]

/-- The search fails at the first unit that fails, if no unit before it has an answer. -/
theorem search_eq_error (depth : Int) :
    search (.text library) depth bare units = .error e ↔
      ∃ before u after, units = before ++ u :: after ∧
        (∀ w ∈ before, w.lookup? library bare = .ok none) ∧ u.lookup? library bare = .error e := by
  constructor
  · intro h
    induction units with
    | nil => cases h
    | cons u rest ih =>
      cases hu : u.lookup? library bare with
      | error e' =>
        simp only [search, libraryName, bind, Except.bind, hu] at h
        cases h
        exact ⟨[], u, rest, rfl, by simp, hu⟩
      | ok o =>
        simp only [search, libraryName, bind, Except.bind, hu] at h
        cases o with
        | some i => cases h
        | none =>
          obtain ⟨before, w, after, rfl, hbefore, hw⟩ := ih h
          exact ⟨u :: before, w, after, rfl, List.forall_mem_cons.mpr ⟨hu, hbefore⟩, hw⟩
  · rintro ⟨before, u, after, rfl, hbefore, hu⟩
    induction before with
    | nil => simp [search, libraryName, bind, Except.bind, hu]
    | cons w before ih =>
      obtain ⟨hw, hbefore⟩ := List.forall_mem_cons.mp hbefore
      simp only [List.cons_append, search, libraryName, bind, Except.bind, hw]
      exact ih hbefore

theorem search_deeper (library : Value) (depth : Int) (bare : String)
    (units : List TranslationUnit) :
    search library (depth + 1) bare units = (search library depth bare units).map
      (Option.map fun found => { found with depth := found.depth + 1 }) := by
  induction units with
  | nil => rfl
  | cons u rest ih =>
    cases hlibrary : libraryName library with
    | error e =>
      rw [search, search, hlibrary]
      rfl
    | ok header =>
      simp only [search, hlibrary, bind, Except.bind]
      cases u.lookup? header bare with
      | error e => rfl
      | ok o =>
        cases o with
        | none => exact ih
        | some i => simp [pure, Except.pure, Except.map, Int.add_assoc]

theorem answer_star (units : List TranslationUnit) (library : Value) (t : String) :
    answer units library (.text ("*" ++ t)) = (answer units library (.text t)).map
      (Option.map fun found => { found with depth := found.depth + 1, name := "*" ++ t }) := by
  have hanswer : ∀ name, answer units library (.text name) =
      (search library (parseName name).1 (parseName name).2 units).map
        (Option.map ({ · with name := name })) := fun _ => rfl
  have hstar : "*" ++ t = stars 1 ++ t := rfl
  have hdepth : (parseName ("*" ++ t)).1 = (parseName t).1 + 1 := by
    rw [hstar, parseName_fst, parseName_fst, leadingStars_stars]
    omega
  have hname : (parseName ("*" ++ t)).2 = (parseName t).2 := by
    rw [hstar, parseName_snd_stars]
  rw [hanswer, hanswer, hdepth, hname, search_deeper]
  cases search library (parseName t).1 (parseName t).2 units with
  | error e => rfl
  | ok o => cases o <;> rfl

theorem parseName_unstarred (h : t.toList.head? ≠ some '*') :
    parseName t = (0, String.ofList (Text.trim t.toList)) := by
  have hdrop : t.toList.dropWhile (· = '*') = t.toList := by
    cases htext : t.toList with
    | nil => rfl
    | cons c rest =>
      rw [htext] at h
      simpa using h
  simp [parseName, hdrop, String.length_toList]

theorem search_eq_some {depth : Int} {found : QueryType} :
    search (.text library) depth bare units = .ok (some found) ↔
      ∃ before u after i, units = before ++ u :: after ∧
        (∀ w ∈ before, w.lookup? library bare = .ok none) ∧
        u.lookup? library bare = .ok (some i) ∧ found = { i with depth := i.depth + depth } := by
  constructor
  · intro h
    obtain ⟨header, before, u, after, i, hheader, hunits, hbefore, hu, hfound⟩ :=
      exists_first_of_search h
    cases hheader
    exact ⟨before, u, after, i, hunits, hbefore, hu, hfound⟩
  · rintro ⟨before, u, after, i, rfl, hbefore, hu, rfl⟩
    exact search_of_first depth rfl hbefore hu

section Unstarred

variable (hstar : t.toList.head? ≠ some '*')
include hstar

theorem answer_unstarred : answer units (.text library) (.text t) =
    (search (.text library) 0 (String.ofList (Text.trim t.toList)) units).map
      (Option.map ({ · with name := t })) := by
  have hanswer : answer units (.text library) (.text t) =
      (search (.text library) (parseName t).1 (parseName t).2 units).map
        (Option.map ({ · with name := t })) := rfl
  rw [hanswer, parseName_unstarred hstar]

theorem answer_eq_some_iff {found : QueryType} :
    answer units (.text library) (.text t) = .ok (some found) ↔
      ∃ before u after i, units = before ++ u :: after ∧
        (∀ w ∈ before, w.lookup? library (String.ofList (Text.trim t.toList)) = .ok none) ∧
        u.lookup? library (String.ofList (Text.trim t.toList)) = .ok (some i) ∧
        found = ⟨i.usr, i.depth, t⟩ := by
  rw [answer_unstarred hstar]
  constructor
  · intro h
    cases hsearch : search (.text library) 0 (String.ofList (Text.trim t.toList)) units with
    | error e =>
      rw [hsearch] at h
      cases h
    | ok o =>
      rw [hsearch] at h
      cases o with
      | none => cases h
      | some identity =>
        obtain ⟨before, u, after, i, hunits, hbefore, hu, rfl⟩ := search_eq_some.mp hsearch
        cases h
        exact ⟨before, u, after, i, hunits, hbefore, hu, by simp⟩
  · rintro ⟨before, u, after, i, hunits, hbefore, hu, rfl⟩
    rw [search_eq_some.mpr ⟨before, u, after, i, hunits, hbefore, hu, rfl⟩]
    simp [Except.map]

theorem answer_eq_none_iff :
    answer units (.text library) (.text t) = .ok none ↔
      ∀ u ∈ units, u.lookup? library (String.ofList (Text.trim t.toList)) = .ok none := by
  rw [answer_unstarred hstar, ← search_eq_none 0]
  cases search (.text library) 0 (String.ofList (Text.trim t.toList)) units with
  | error e => simp [Except.map]
  | ok o => cases o <;> simp [Except.map]

theorem answer_eq_error_iff :
    answer units (.text library) (.text t) = .error e ↔
      ∃ before u after, units = before ++ u :: after ∧
        (∀ w ∈ before, w.lookup? library (String.ofList (Text.trim t.toList)) = .ok none) ∧
        u.lookup? library (String.ofList (Text.trim t.toList)) = .error e := by
  rw [answer_unstarred hstar, ← search_eq_error 0]
  cases search (.text library) 0 (String.ofList (Text.trim t.toList)) units with
  | error e => simp [Except.map]
  | ok o => simp [Except.map]

end Unstarred

open TranslationUnit in
/-- A star before a name makes the depth of what it is looked up as greater by one. Without stars,
and for a relative path of a library, the first unit decides that includes the library and has a
type identity for the first declaration of the name in preorder; where a unit before it includes the
library and cannot be read, the lookup fails. -/
theorem lookup_first_unit {σ : Type} [HasLog σ] (units : List TranslationUnit)
    (library t : String) (st : σ) :
    ((lookup units (.text library) (.text ("*" ++ t))).run st).1 =
      ((lookup units (.text library) (.text t)).run st).1.map
        (Option.map fun found => { found with depth := found.depth + 1, name := "*" ++ t }) ∧
    ((forwardSlashes library).toList.head? ≠ some '/' → t.toList.head? ≠ some '*' →
      (∀ found, ((lookup units (.text library) (.text t)).run st).1 = .ok (some found) ↔
        ∃ before u after i, units = before ++ u :: after ∧
          (∀ w ∈ before, w.Passes library (String.ofList (Text.trim t.toList))) ∧
          u.Answers library (String.ofList (Text.trim t.toList)) i ∧
          found = ⟨i.usr, i.depth, t⟩) ∧
      (((lookup units (.text library) (.text t)).run st).1 = .ok none ↔
        ∀ u ∈ units, u.Passes library (String.ofList (Text.trim t.toList))) ∧
      ∀ e, ((lookup units (.text library) (.text t)).run st).1 = .error e ↔
        ∃ before u after reason, units = before ++ u :: after ∧
          (∀ w ∈ before, w.Passes library (String.ofList (Text.trim t.toList))) ∧
          u.Includes library ∧ u.TornBy reason ∧ e = .children reason) := by
  simp only [run_lookup]
  refine ⟨answer_star units (.text library) t, fun hrelative hstar => ?_⟩
  refine ⟨fun found => ?_, ?_, fun e => ?_⟩
  · simp only [answer_eq_some_iff hstar, lookup?_eq_some_iff hrelative,
      lookup?_eq_none_iff hrelative]
  · simp only [answer_eq_none_iff hstar, lookup?_eq_none_iff hrelative]
  · simp only [answer_eq_error_iff hstar, lookup?_eq_error_iff hrelative,
      lookup?_eq_none_iff hrelative]
    constructor
    · rintro ⟨before, u, after, hunits, hbefore, hincludes, reason, htorn, he⟩
      exact ⟨before, u, after, reason, hunits, hbefore, hincludes, htorn, he⟩
    · rintro ⟨before, u, after, reason, hunits, hbefore, hincludes, htorn, he⟩
      exact ⟨before, u, after, hunits, hbefore, hincludes, reason, htorn, he⟩

end TypeLookup

namespace HandleTypes

open TranslationUnit TypeLookup

/-- A name inside a class for a pointer to the struct. -/
def inner : Node :=
  .mk 2 { kind := .typedefDecl, spelling := "Handle", type := some 2 } []

def pool : Node :=
  .mk 3 { kind := .classDecl, spelling := "Pool", usr := "c:@S@Pool" } [inner]

/-- The class stands in a namespace without a name inside a linkage specification. -/
def linked : Node :=
  .mk 4 { kind := .linkageSpec } [.mk 5 { kind := .namespaceDecl } [pool]]

/-- A unit that includes the file under some path. -/
def including (file : String) : TranslationUnit where
  nodes := #[.mk 0 { kind := .other "TRANSLATION_UNIT" } [conn, linked], conn]
  types :=
    #[{ kind := .other "RECORD", spelling := "conn", declaration := some 1 },
      { kind := .pointer, spelling := "conn *", pointee := some 0 },
      { kind := .other "TYPEDEF", spelling := "Handle", canonical := some 1 }]
  includes := [file]

theorem typeTable_including (file : String) : (including file).typeTable =
    .ok [("conn", conn), ("Pool", pool), ("Pool::Handle", inner)] := rfl

/-- The unit that includes another file whose path ends in the same characters is passed. -/
theorem nested_lookup :
    (forwardSlashes "db\\pool.h").toList.head? ≠ some '/' ∧
      " Pool::Handle".toList.head? ≠ some '*' ∧
      ((lookup [including "/usr/mydb/pool.h", including "/usr/./db/pool.h"]
        (.text "db\\pool.h") (.text " Pool::Handle")).run (#[] : Log)).1 =
          .ok (some ⟨"c:@S@conn", 1, " Pool::Handle"⟩) ∧
      ((lookup [including "/usr/mydb/pool.h", including "/usr/./db/pool.h"]
        (.text "db\\pool.h") (.text ("*" ++ " Pool::Handle"))).run (#[] : Log)).1 =
          .ok (some ⟨"c:@S@conn", 2, "*" ++ " Pool::Handle"⟩) := by
  have hrelative : (forwardSlashes "db\\pool.h").toList.head? ≠ some '/' := by decide +kernel
  have hplain : " Pool::Handle".toList.head? ≠ some '*' := by decide +kernel
  have hname : String.ofList (Text.trim " Pool::Handle".toList) = "Pool::Handle" := by
    decide +kernel
  obtain ⟨hstar, hlookup⟩ := lookup_first_unit
    [including "/usr/mydb/pool.h", including "/usr/./db/pool.h"] "db\\pool.h" " Pool::Handle"
    (#[] : Log)
  have hpasses : (including "/usr/mydb/pool.h").Passes "db\\pool.h" "Pool::Handle" := by
    rintro ⟨file, hfile, hsuffix⟩
    rw [List.mem_singleton.mp hfile] at hsuffix
    exact absurd hsuffix (by decide +kernel)
  have hanswers : (including "/usr/./db/pool.h").Answers "db\\pool.h" "Pool::Handle"
      ⟨"c:@S@conn", 1, "conn"⟩ :=
    ⟨⟨_, List.mem_singleton_self _, by decide +kernel⟩, intact_of_typeTable (typeTable_including _),
      inner, (find?_typeTable (typeTable_including _)).mp rfl, rfl⟩
  have hfound : ((lookup [including "/usr/mydb/pool.h", including "/usr/./db/pool.h"]
      (.text "db\\pool.h") (.text " Pool::Handle")).run (#[] : Log)).1 =
        .ok (some ⟨"c:@S@conn", 1, " Pool::Handle"⟩) := by
    refine ((hlookup hrelative hplain).1 _).mpr
      ⟨[including "/usr/mydb/pool.h"], including "/usr/./db/pool.h", [], ⟨"c:@S@conn", 1, "conn"⟩,
        rfl, ?_, ?_, rfl⟩
    · rw [hname]
      simpa using hpasses
    · rw [hname]
      exact hanswers
  refine ⟨hrelative, hplain, hfound, ?_⟩
  rw [hstar, hfound]
  rfl

end HandleTypes

end NPlusOne
