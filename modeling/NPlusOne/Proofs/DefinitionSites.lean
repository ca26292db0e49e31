import Mathlib.Data.List.Lex
import NPlusOne.Proofs.CallListing
import NPlusOne.Proofs.OpenedNodes

namespace NPlusOne

namespace Enumerates

variable {α β : Type} {placed : List Nat → α → Prop} {found : List α} {f : α → β}

theorem exists_site (h : Enumerates placed found) {a : α} (ha : a ∈ found) :
    ∃ site, placed site a := by
  obtain ⟨sites, rfl, _, hmem⟩ := h
  obtain ⟨⟨site, b⟩, hsite, rfl⟩ := List.mem_map.mp ha
  exact ⟨site, (hmem site b).mp hsite⟩

/-- Where each value stands at one site, no value is listed twice. -/
theorem nodup_map (h : Enumerates placed found)
    (hf : ∀ {site a site' a'}, placed site a → placed site' a' → f a = f a' → site = site') :
    (found.map f).Nodup := by
  obtain ⟨sites, rfl, hsorted, hmem⟩ := h
  rw [List.map_map]
  refine List.pairwise_map.mpr (hsorted.imp_of_mem ?_)
  rintro ⟨site, a⟩ ⟨site', a'⟩ hx hy hlt heq
  cases hf ((hmem site a).mp hx) ((hmem site' a').mp hy) heq
  exact irrefl (r := List.Lex (· < ·)) site hlt

/-- Where no value is listed twice, each stands at one site. -/
theorem site_eq (h : Enumerates placed found) (hnodup : (found.map f).Nodup) {site site' : List Nat}
    {a a' : α} (ha : placed site a) (ha' : placed site' a') (heq : f a = f a') : site = site' := by
  obtain ⟨sites, rfl, _, hmem⟩ := h
  rw [List.map_map] at hnodup
  have hpair := List.inj_on_of_nodup_map hnodup ((hmem site a).mpr ha) ((hmem site' a').mpr ha') heq
  exact congrArg Prod.fst hpair

end Enumerates

namespace Node

mutual

/-- The nodes of a tree, each before those below it. -/
def preorder : Node → List Node
  | .mk id info children => .mk id info children :: preorderAll children

def preorderAll : List Node → List Node
  | [] => []
  | n :: rest => preorder n ++ preorderAll rest

end

/-- The site leads from the first node to the second. -/
def At (n : Node) (site : List Nat) (m : Node) : Prop :=
  ∃ above, n.Descent site above m

/-- The site leads to a function definition of the file, past nodes of that file only of which none
is a function definition itself. -/
def DefinitionWithin (file : String) (n : Node) (site : List Nat) (m : Node) : Prop :=
  ∃ above, n.Descent site above m ∧ (∀ x ∈ above, x.file? = some file ∧ ¬ x.DefinesFunction) ∧
    m.IsDefinitionOf file

variable {file : String} {n m m' : Node} {site site' : List Nat} {above above' : List Node}

theorem at_iff : n.At site m ↔ site = [] ∧ m = n ∨ Among At n.subtrees site m := by
  constructor
  · rintro ⟨above, hdescent⟩
    cases hdescent with
    | here => exact .inl ⟨rfl, rfl⟩
    | @down _ c _ i site above hc hdescent => exact .inr ⟨i, site, c, rfl, hc, above, hdescent⟩
  · rintro (⟨rfl, rfl⟩ | ⟨i, rest, c, rfl, hc, above, hdescent⟩)
    · exact ⟨[], .here m⟩
    · exact ⟨n :: above, .down hc hdescent⟩

mutual

theorem enumerates_preorder (n : Node) : Enumerates n.At n.preorder := by
  obtain ⟨id, info, children⟩ := n
  rw [preorder]
  exact (enumerates_preorderAll children).above fun _ _ => at_iff

theorem enumerates_preorderAll (ns : List Node) : Enumerates (Among At ns) (preorderAll ns) := by
  cases ns with
  | nil => exact .empty
  | cons n rest =>
    rw [preorderAll]
    exact .cons (enumerates_preorder n) (enumerates_preorderAll rest)

end

theorem isSearched_iff : n.IsSearched file ↔ n.file? = some file ∧ ¬ n.DefinesFunction := by
  rw [← isFunctionDefinition_iff, Bool.not_eq_true]
  exact ⟨fun h => ⟨isIn_iff.mp h.located, h.outside⟩, fun h => ⟨isIn_iff.mpr h.1, h.2⟩⟩

theorem definitionWithin_iff : n.DefinitionWithin file site m ↔
    n.Leads (IsSearched file) (IsDefinitionOf file) site m := by
  simp only [DefinitionWithin, Leads, isSearched_iff]

end Node

namespace TranslationUnit

/-- The site leads from the top of the unit to a function definition of the file, past nodes of that
file only of which none is a function definition itself. -/
def DefinitionWithin (u : TranslationUnit) (file : String) : List Nat → Node → Prop :=
  Among (Node.DefinitionWithin file) u.root.subtrees

/-- No node stands at two places of the unit's tree. -/
def IsTree (u : TranslationUnit) : Prop :=
  (u.root.preorder.map Node.id).Nodup

variable {u : TranslationUnit} {path file : String} {site site' : List Nat} {d d' : Node}

theorem IsTree.site_eq (h : u.IsTree) (hd : u.root.At site d) (hd' : u.root.At site' d')
    (hid : d.id = d'.id) : site = site' :=
  u.root.enumerates_preorder.site_eq h hd hd' hid

theorem DefinitionWithin.descent (h : u.DefinitionWithin file site d) :
    ∃ above, u.root.Descent site (u.root :: above) d ∧ (∀ x ∈ above, ¬ x.DefinesFunction) ∧
      d.DefinesFunction := by
  obtain ⟨i, rest, c, rfl, hc, above, hdescent, habove, hd⟩ := h
  exact ⟨above, .down hc hdescent, fun x hx => (habove x hx).2, hd.defines⟩

/-- In a tree no definition that counts stands inside another. -/
theorem DefinitionWithin.not_inside (htree : u.IsTree) (h : u.DefinitionWithin file site d)
    (h' : u.DefinitionWithin file site' d') {inner : List Nat} (hin : d.At inner d') :
    inner = [] := by
  obtain ⟨above, hdescent, _, hd⟩ := h.descent
  obtain ⟨above', hdescent', habove', _⟩ := h'.descent
  obtain ⟨between, hinner⟩ := hin
  have hjoined := hdescent.append hinner
  cases htree.site_eq ⟨_, hdescent'⟩ ⟨_, hjoined⟩ rfl
  have habove := (hdescent'.unique hjoined).1
  cases hinner with
  | here => rfl
  | down =>
    simp only [List.cons_append, List.cons.injEq, true_and] at habove
    exact absurd hd (habove' d (by simp [habove]))

theorem enumerates_definitions {found : List Node} (h : u.functionDefinitions path = .ok found) :
    Enumerates (u.DefinitionWithin (Path.normalize path)) found := by
  refine (enumerates_functionDefinitions h).of_iff fun site d => ?_
  simp only [DefinitionWithin, Among, Node.definitionWithin_iff]

/-- Where the front end fails at no node that is opened, the function definitions of a file are
listed in source order, as far as all that is around them lies in the file too and is no function
definition; in a tree none is listed twice, and none stands inside another. -/
theorem functionDefinitions_listed
    (h : ∀ y, u.OpensForDefinitions path y → y.info.failure = none) :
    ∃ found, u.functionDefinitions path = .ok found ∧
      Enumerates (u.DefinitionWithin (Path.normalize path)) found ∧
      (u.IsTree → (found.map Node.id).Nodup ∧
        ∀ d ∈ found, ∀ d' ∈ found, ∀ inner, d.At inner d' → inner = []) := by
  cases hfound : u.functionDefinitions path with
  | error e =>
    obtain ⟨y, hy, hye⟩ := functionDefinitions_fails_iff.mp hfound
    simp [Node.children, h y hy] at hye
  | ok found =>
    have hlisted := enumerates_definitions hfound
    refine ⟨found, rfl, hlisted, fun htree => ⟨hlisted.nodup_map ?_, ?_⟩⟩
    · intro site d site' d' hd hd' hid
      obtain ⟨_, hdescent, _⟩ := hd.descent
      obtain ⟨_, hdescent', _⟩ := hd'.descent
      exact htree.site_eq ⟨_, hdescent⟩ ⟨_, hdescent'⟩ hid
    · intro d hd d' hd' inner hin
      obtain ⟨site, hsite⟩ := hlisted.exists_site hd
      obtain ⟨site', hsite'⟩ := hlisted.exists_site hd'
      exact hsite.not_inside htree hsite' hin

end TranslationUnit

namespace Sample

/-- A definition inside another, one in a class of a header, and a class with a constructor and a
method that is only declared. -/
def classes : TranslationUnit where
  nodes := #[.mk 0 { kind := .other "TRANSLATION_UNIT" }
    [.mk 1 { kind := .namespaceDecl, place := place 10 }
        [function 2 12 [.mk 3 { kind := .method, place := place 14, isDefinition := true } []]],
      .mk 4 { kind := .classDecl, place := some ⟨"open.h", 1, 11, 10⟩ } [function 5 20 []],
      .mk 6 { kind := .classDecl, place := place 30 }
        [.mk 7 { kind := .constructorDecl, place := place 32, isDefinition := true } [],
          .mk 8 { kind := .method, place := place 34 } []]]]

theorem classes_definitions_listed :
    (∀ y, classes.OpensForDefinitions "a.cpp" y → y.info.failure = none) ∧ classes.IsTree ∧
    ∃ found, classes.functionDefinitions "a.cpp" = .ok found ∧ found.map Node.id = [2, 7] ∧
      Enumerates (classes.DefinitionWithin (Path.normalize "a.cpp")) found ∧
      ∀ d ∈ found, ∀ d' ∈ found, ∀ inner, d.At inner d' → inner = [] := by
  have hids : (classes.functionDefinitions "a.cpp").map (·.map Node.id) = .ok [2, 7] := rfl
  have hopen : ∀ y, classes.OpensForDefinitions "a.cpp" y → y.info.failure = none := by
    intro y hy
    cases hf : y.info.failure with
    | none => rfl
    | some reason =>
      have hye : y.children = .error (.children reason) := by rw [Node.children, hf]
      rw [TranslationUnit.functionDefinitions_fails_iff.mpr ⟨y, hy, hye⟩] at hids
      cases hids
  have htree : classes.IsTree := by
    unfold TranslationUnit.IsTree
    decide
  obtain ⟨found, hfound, hlisted, honce⟩ := TranslationUnit.functionDefinitions_listed hopen
  rw [hfound] at hids
  exact ⟨hopen, htree, found, hfound, Except.ok.inj hids, hlisted, (honce htree).2⟩

end Sample

end NPlusOne
