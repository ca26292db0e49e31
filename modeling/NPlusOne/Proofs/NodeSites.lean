import NPlusOne.Proofs.ExtractedNodes

namespace NPlusOne

/-- The elements are all that have a site, in the order of their sites. Sites compare like words. -/
def Enumerates {α : Type} (placed : List Nat → α → Prop) (found : List α) : Prop :=
  ∃ sites : List (List Nat × α), found = sites.map Prod.snd ∧
    sites.Pairwise (fun x y => List.Lex (· < ·) x.1 y.1) ∧
    ∀ site a, (site, a) ∈ sites ↔ placed site a

/-- The site begins with the number of a part and goes on inside it. -/
def Among {ι α : Type} (inside : ι → List Nat → α → Prop) (parts : List ι) (site : List Nat)
    (a : α) : Prop :=
  ∃ i rest x, site = i :: rest ∧ parts[i]? = some x ∧ inside x rest a

namespace Enumerates

variable {ι α β : Type} {placed : List Nat → α → Prop} {found these those : List α}

theorem of_iff {placed' : List Nat → α → Prop} (h : Enumerates placed found)
    (hp : ∀ site a, placed site a ↔ placed' site a) : Enumerates placed' found := by
  obtain ⟨sites, hfound, hsorted, hmem⟩ := h
  exact ⟨sites, hfound, hsorted, fun site a => (hmem site a).trans (hp site a)⟩

theorem nil (h : ∀ site a, ¬ placed site a) : Enumerates placed [] :=
  ⟨[], rfl, .nil, fun site a => by simpa using h site a⟩

theorem singleton {a : α} (h : ∀ site b, placed site b ↔ site = [] ∧ b = a) :
    Enumerates placed [a] :=
  ⟨[([], a)], rfl, List.pairwise_singleton _ _, fun site b => by simp [h]⟩

theorem lex_modifyHead {s t : List Nat} (hs : s ≠ []) (h : List.Lex (· < ·) s t) :
    List.Lex (· < ·) (s.modifyHead (· + 1)) (t.modifyHead (· + 1)) := by
  cases h with
  | nil => exact absurd rfl hs
  | cons h => exact .cons h
  | rel h => exact .rel (Nat.succ_lt_succ h)

/-- What one part lists comes before what the parts behind it list. -/
theorem cons {inside : ι → List Nat → α → Prop} {x : ι} {xs : List ι}
    (h : Enumerates (inside x) these) (h' : Enumerates (Among inside xs) those) :
    Enumerates (Among inside (x :: xs)) (these ++ those) := by
  obtain ⟨sites, hthese, hsorted, hmem⟩ := h
  obtain ⟨sites', hthose, hsorted', hmem'⟩ := h'
  have hne : ∀ p ∈ sites', p.1 ≠ [] := by
    rintro ⟨site, a⟩ hp rfl
    obtain ⟨i, rest, y, hsite, _⟩ := (hmem' [] a).mp hp
    cases hsite
  refine ⟨sites.map (Prod.map (0 :: ·) id) ++ sites'.map (Prod.map (List.modifyHead (· + 1)) id),
    ?_, ?_, ?_⟩
  · simp [hthese, hthose, Function.comp_def]
  · refine List.pairwise_append.mpr ⟨?_, ?_, ?_⟩
    · exact List.pairwise_map.mpr (hsorted.imp fun hlt => .cons hlt)
    · refine List.pairwise_map.mpr (hsorted'.imp_of_mem fun hp _ hlt => ?_)
      exact lex_modifyHead (hne _ hp) hlt
    · intro p hp q hq
      obtain ⟨p', _, rfl⟩ := List.mem_map.mp hp
      obtain ⟨⟨site, a⟩, hq', rfl⟩ := List.mem_map.mp hq
      obtain ⟨i, rest, y, rfl, _⟩ := (hmem' site a).mp hq'
      exact .rel (Nat.succ_pos i)
  · intro site a
    rw [List.mem_append, List.mem_map, List.mem_map]
    constructor
    · rintro (⟨⟨rest, b⟩, hp, heq⟩ | ⟨⟨rest, b⟩, hp, heq⟩)
      · cases heq
        exact ⟨0, rest, x, rfl, rfl, (hmem rest b).mp hp⟩
      · obtain ⟨i, tail, y, rfl, hy, hin⟩ := (hmem' rest b).mp hp
        cases heq
        exact ⟨i + 1, tail, y, rfl, hy, hin⟩
    · rintro ⟨i, rest, y, rfl, hy, hin⟩
      cases i with
      | zero =>
        cases hy
        exact .inl ⟨(rest, a), (hmem rest a).mpr hin, rfl⟩
      | succ i =>
        exact .inr ⟨(i :: rest, a), (hmem' _ a).mpr ⟨i, rest, y, rfl, hy, hin⟩, rfl⟩

/-- An element that stands above the parts comes before what they list. -/
theorem above {inside : ι → List Nat → α → Prop} {parts : List ι} {a : α}
    (h : Enumerates (Among inside parts) found)
    (hp : ∀ site b, placed site b ↔ site = [] ∧ b = a ∨ Among inside parts site b) :
    Enumerates placed (a :: found) := by
  obtain ⟨sites, rfl, hsorted, hmem⟩ := h
  refine ⟨([], a) :: sites, rfl, List.pairwise_cons.mpr ⟨?_, hsorted⟩, fun site b => ?_⟩
  · rintro ⟨site, b⟩ hb
    obtain ⟨i, rest, x, rfl, _⟩ := (hmem site b).mp hb
    exact .nil
  · rw [hp, List.mem_cons, hmem, Prod.mk.injEq]

/-- The elements that have a value keep their sites. -/
theorem filterMap (h : Enumerates placed found) (f : α → Option β) :
    Enumerates (fun site b => ∃ a, placed site a ∧ f a = some b) (found.filterMap f) := by
  obtain ⟨sites, rfl, hsorted, hmem⟩ := h
  refine ⟨sites.filterMap fun p => (f p.2).map (p.1, ·), ?_, ?_, fun site b => ?_⟩
  · simp [List.map_filterMap, List.filterMap_map, Function.comp_def]
  · refine hsorted.filterMap _ fun p q hlt p' hp q' hq => ?_
    obtain ⟨_, _, rfl⟩ := Option.map_eq_some_iff.mp hp
    obtain ⟨_, _, rfl⟩ := Option.map_eq_some_iff.mp hq
    exact hlt
  · rw [List.mem_filterMap]
    constructor
    · rintro ⟨⟨site', a⟩, hp, heq⟩
      obtain ⟨b', hb, heq⟩ := Option.map_eq_some_iff.mp heq
      cases heq
      exact ⟨a, (hmem site' a).mp hp, hb⟩
    · rintro ⟨a, ha, hb⟩
      exact ⟨(site, a), (hmem site a).mpr ha, by simp [hb]⟩

theorem empty {inside : ι → List Nat → α → Prop} : Enumerates (Among inside []) [] :=
  nil fun _ _ ⟨_, _, _, _, hx, _⟩ => by simp at hx

theorem mem (h : Enumerates placed found) {site : List Nat} {a : α} (ha : placed site a) :
    a ∈ found := by
  obtain ⟨sites, rfl, _, hmem⟩ := h
  exact List.mem_map.mpr ⟨(site, a), (hmem site a).mpr ha, rfl⟩

/-- The first element that has a value is the one with the first site. -/
theorem findSome?_eq_some {f : α → Option β} {b : β} (h : Enumerates placed found)
    (hf : found.findSome? f = some b) :
    ∃ site a, placed site a ∧ f a = some b ∧
      ∀ site' a', placed site' a' → (f a').isSome → site' = site ∨ List.Lex (· < ·) site site' := by
  obtain ⟨sites, rfl, hsorted, hmem⟩ := h
  rw [List.findSome?_map] at hf
  obtain ⟨before, ⟨site, a⟩, behind, hsplit, hvalue, hbefore⟩ := List.findSome?_eq_some_iff.mp hf
  refine ⟨site, a, (hmem site a).mp (by simp [hsplit]), hvalue, fun site' a' hplaced hsome => ?_⟩
  have hin := (hmem site' a').mpr hplaced
  rw [hsplit] at hin hsorted
  rcases List.mem_append.mp hin with hin | hin
  · have hnone : f a' = none := hbefore _ hin
    simp [hnone] at hsome
  · rcases List.mem_cons.mp hin with heq | hin
    · exact .inl (congrArg Prod.fst heq)
    · have hlater := (List.pairwise_append.mp hsorted).2.1
      exact .inr ((List.pairwise_cons.mp hlater).1 _ hin)

theorem findSome?_eq_none {f : α → Option β} (h : Enumerates placed found)
    (hf : found.findSome? f = none) {site : List Nat} {a : α} (ha : placed site a) :
    f a = none := by
  obtain ⟨sites, rfl, _, hmem⟩ := h
  have hin := (hmem site a).mpr ha
  exact List.findSome?_eq_none_iff.mp hf a (List.mem_map.mpr ⟨_, hin, rfl⟩)

end Enumerates

namespace Node

/-- From the first node the numbers of children lead down, past the nodes above, to the last. -/
inductive Descent : Node → List Nat → List Node → Node → Prop
  | here (n : Node) : Descent n [] [] n
  | down {n c m : Node} {i : Nat} {site : List Nat} {above : List Node} :
    n.subtrees[i]? = some c → Descent c site above m → Descent n (i :: site) (n :: above) m

theorem Descent.unique {n m m' : Node} {site : List Nat} {above above' : List Node}
    (h : n.Descent site above m) (h' : n.Descent site above' m') : above = above' ∧ m = m' := by
  induction h generalizing above' with
  | here =>
    cases h'
    exact ⟨rfl, rfl⟩
  | down hc _ ih =>
    cases h' with
    | down hc' h' =>
      cases hc.symm.trans hc'
      obtain ⟨rfl, rfl⟩ := ih h'
      exact ⟨rfl, rfl⟩

theorem Descent.append {n m m' : Node} {site site' : List Nat} {above above' : List Node}
    (h : n.Descent site above m) (h' : m.Descent site' above' m') :
    n.Descent (site ++ site') (above ++ above') m' := by
  induction h with
  | here => exact h'
  | down hc _ ih => exact .down hc (ih h')

/-- The site leads past nodes that are entered to one that is wanted. -/
def Leads (enters wanted : Node → Prop) (n : Node) (site : List Nat) (m : Node) : Prop :=
  ∃ above, n.Descent site above m ∧ (∀ x ∈ above, enters x) ∧ wanted m

section Finds

variable {enters wanted : Node → Prop} {search : Node → Except Failure (List Node)}
  {searchAll : List Node → Except Failure (List Node)} {n m : Node} {ns found : List Node}
  {site : List Nat}

theorem leads_iff : n.Leads enters wanted site m ↔
    (site = [] ∧ m = n) ∧ wanted n ∨ enters n ∧ Among (Leads enters wanted) n.subtrees site m := by
  constructor
  · rintro ⟨above, hdescent, habove, hm⟩
    cases hdescent with
    | here => exact .inl ⟨⟨rfl, rfl⟩, hm⟩
    | @down _ c _ i site above hc hdescent =>
      obtain ⟨hn, habove⟩ := List.forall_mem_cons.mp habove
      exact .inr ⟨hn, i, site, c, rfl, hc, above, hdescent, habove, hm⟩
  · rintro (⟨⟨rfl, rfl⟩, hm⟩ | ⟨hn, i, rest, c, rfl, hc, above, hdescent, habove, hm⟩)
    · exact ⟨[], .here m, by simp, hm⟩
    · exact ⟨n :: above, .down hc hdescent, List.forall_mem_cons.mpr ⟨hn, habove⟩, hm⟩

namespace Finds

theorem enumerates_tree (h : Finds enters wanted search searchAll)
    (hbelow : ∀ {below}, searchAll n.subtrees = .ok below →
      Enumerates (Among (Leads enters wanted) n.subtrees) below)
    (hfound : search n = .ok found) : Enumerates (n.Leads enters wanted) found := by
  obtain ⟨own, hown, ⟨hn, rfl⟩ | ⟨hn, below, _, hall, rfl⟩⟩ := h.search_eq_ok hfound
  · have hleads : ∀ site m, n.Leads enters wanted site m ↔ (site = [] ∧ m = n) ∧ wanted n := by
      intro site m
      rw [leads_iff, or_iff_left fun hin => hn hin.1]
    obtain ⟨hw, rfl⟩ | ⟨hw, rfl⟩ := hown
    · exact .singleton fun site m => by rw [hleads, and_iff_left hw]
    · exact .nil fun site m hm => hw ((hleads site m).mp hm).2
  · obtain ⟨hw, rfl⟩ | ⟨hw, rfl⟩ := hown
    · refine (hbelow hall).above fun site m => ?_
      rw [leads_iff, and_iff_left hw, and_iff_right hn]
    · refine (hbelow hall).of_iff fun site m => ?_
      rw [leads_iff, and_iff_right hn, or_iff_right fun hself => hw hself.2]

/-- A search that succeeds has found exactly what is wanted below the nodes that it enters, in
source order. -/
theorem enumerates (h : Finds enters wanted search searchAll) (hfound : searchAll ns = .ok found) :
    Enumerates (Among (Leads enters wanted) ns) found := by
  induction ns using forest_induction generalizing found with
  | nil =>
    cases h.nil.symm.trans hfound
    exact .empty
  | cons n rest ihbelow ihrest =>
    obtain ⟨these, those, hthese, hthose, rfl⟩ := h.cons_eq_ok hfound
    exact .cons (h.enumerates_tree ihbelow hthese) (ihrest hthose)

theorem enumerates_children (h : Finds enters wanted search searchAll)
    (hfound : n.children >>= searchAll = .ok found) :
    Enumerates (Among (Leads enters wanted) n.subtrees) found := by
  obtain ⟨ns, hns, hall⟩ := except_bind_eq_ok.mp hfound
  rw [← subtrees_of_children hns]
  exact h.enumerates hall

end Finds

end Finds

/-- The site leads through scopes to a definition. -/
def Exposes (n : Node) (site : List Nat) (d : Node) : Prop :=
  ∃ scopes, n.Descent site scopes d ∧ (∀ m ∈ scopes, m.IsScope) ∧ d.IsIndexable

variable {n d : Node} {site : List Nat} {file : String}

/-- The site leads through scopes of one file to a definition in that file. -/
def ExposesIn (file : String) (n : Node) (site : List Nat) (d : Node) : Prop :=
  ∃ scopes, n.Descent site scopes d ∧ (∀ m ∈ scopes, m.IsScope ∧ m.file? = some file) ∧
    d.IsIndexable ∧ d.file? = some file

/-- The children of every node of the tree can be listed. -/
def Whole (n : Node) : Prop :=
  ∀ m, n.Contains m → m.info.failure = none

theorem ExposesIn.leads (h : ExposesIn file n site d) :
    n.Leads (IsSearched file) (IsDefinitionOf file) site d := by
  obtain ⟨scopes, hdescent, hscopes, hd, hfile⟩ := h
  refine ⟨scopes, hdescent, fun m hm => ?_, hfile, isFunctionDefinition_iff.mp hd.definition⟩
  obtain ⟨hscope, hin⟩ := hscopes m hm
  exact ⟨isIn_iff.mpr hin, hscope.outside⟩

end Node

namespace TranslationUnit

variable {u : TranslationUnit}

/-- The site leads from the top of the unit through scopes to a definition. -/
def Exposes (u : TranslationUnit) : List Nat → Node → Prop :=
  Among Node.Exposes u.root.subtrees

theorem enumerates_indexed {found : List Node} (h : u.indexed = .ok found) :
    Enumerates u.Exposes found :=
  Node.finds_indexedDefinitions.enumerates_children h

def ExposesIn (u : TranslationUnit) (file : String) : List Nat → Node → Prop :=
  Among (Node.ExposesIn file) u.root.subtrees

theorem enumerates_functionDefinitions {path : String} {found : List Node}
    (h : u.functionDefinitions path = .ok found) :
    Enumerates (Among (Node.Leads (Node.IsSearched (Path.normalize path))
      (Node.IsDefinitionOf (Path.normalize path))) u.root.subtrees) found :=
  (Node.finds_definitionsIn _).enumerates_children h

theorem exists_functionDefinitions (hw : u.root.Whole) (path : String) :
    ∃ found, u.functionDefinitions path = .ok found := by
  cases hfound : u.functionDefinitions path with
  | error e =>
    obtain ⟨y, hy, hye⟩ := (Node.finds_definitionsIn _).exists_torn_children hfound
    simp [Node.children, hw y hy] at hye
  | ok found => exact ⟨found, rfl⟩

/-- Where all scopes of an indexed definition lie in its file, the definition is also found when the
file is searched for definitions. -/
theorem mem_functionDefinitions {path : String} {site : List Nat} {d : Node} (hw : u.root.Whole)
    (h : u.ExposesIn (Path.normalize path) site d) :
    ∃ found, u.functionDefinitions path = .ok found ∧ d ∈ found := by
  obtain ⟨i, rest, c, hsite, hc, hd⟩ := h
  obtain ⟨found, hfound⟩ := exists_functionDefinitions hw path
  exact ⟨found, hfound,
    (enumerates_functionDefinitions hfound).mem ⟨i, rest, c, hsite, hc, hd.leads⟩⟩

end TranslationUnit

end NPlusOne
