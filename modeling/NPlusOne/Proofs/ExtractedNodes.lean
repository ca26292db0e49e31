import NPlusOne.Extraction
import NPlusOne.Proofs.QueryReach

namespace NPlusOne

namespace Node

theorem children_eq_error {n : Node} {e : Failure} :
    n.children = .error e ↔ ∃ reason, n.info.failure = some reason ∧ e = .children reason := by
  unfold Node.children
  cases n.info.failure <;> simp [eq_comm]

theorem failure_of_children {n : Node} {ns : List Node} (h : n.children = .ok ns) :
    n.info.failure = none := by
  cases hf : n.info.failure with
  | none => rfl
  | some reason => cases h.symm.trans (children_eq_error.mpr ⟨reason, hf, rfl⟩)

theorem children_ne_error {n : Node} {e : Failure} (he : ∀ reason, e ≠ .children reason) :
    n.children ≠ .error e := by
  intro h
  obtain ⟨reason, _, hreason⟩ := children_eq_error.mp h
  exact he reason hreason

theorem children_mk {id : Nat} {info : NodeInfo} {children : List Node} (h : info.failure = none) :
    (Node.mk id info children).children = .ok children := by
  simp [Node.children, Node.info, Node.subtrees, h]

/-- What holds of no trees at all, and of a list of trees if it holds of the children of the first
one and of the rest, holds of every list of trees. -/
@[elab_as_elim]
theorem forest_induction {P : List Node → Prop} (nil : P [])
    (cons : ∀ n rest, P n.subtrees → P rest → P (n :: rest)) : ∀ ns, P ns
  | [] => nil
  | n :: rest => cons n rest (forest_induction nil cons n.subtrees) (forest_induction nil cons rest)
termination_by ns => sizeList ns
decreasing_by
  · rw [sizeList, size_eq]
    omega
  · rw [sizeList, size_eq]
    omega

/-- The node alone if it is wanted, and nothing otherwise. -/
def Own (wanted : Node → Prop) (n : Node) (own : List Node) : Prop :=
  wanted n ∧ own = [n] ∨ ¬ wanted n ∧ own = []

/-- Trees are searched in turn. A tree's own node, if it is wanted, comes before what is found among
its children, and these are searched if the node is entered. -/
structure Finds (enters wanted : Node → Prop) (search : Node → Except Failure (List Node))
    (searchAll : List Node → Except Failure (List Node)) : Prop where
  nil : searchAll [] = .ok []
  cons : ∀ n rest, searchAll (n :: rest) =
    search n >>= fun these => searchAll rest >>= fun those => .ok (these ++ those)
  entered : ∀ n, enters n → ∃ own, Own wanted n own ∧
    search n = n.children >>= fun ns => searchAll ns >>= fun below => .ok (own ++ below)
  passed : ∀ n, ¬ enters n → ∃ own, Own wanted n own ∧ search n = .ok own

theorem Own.mem {wanted : Node → Prop} {n m : Node} {own : List Node} (h : Own wanted n own)
    (hm : m ∈ own) : wanted m ∧ m = n := by
  obtain ⟨hw, rfl⟩ | ⟨_, rfl⟩ := h
  · obtain rfl := List.mem_singleton.mp hm
    exact ⟨hw, rfl⟩
  · cases hm

namespace Finds

variable {enters wanted : Node → Prop} {search : Node → Except Failure (List Node)}
  {searchAll : List Node → Except Failure (List Node)} {n m : Node} {ns found : List Node}
  {e : Failure}

theorem cons_eq_ok (h : Finds enters wanted search searchAll) {rest : List Node}
    (hfound : searchAll (n :: rest) = .ok found) :
    ∃ these those, search n = .ok these ∧ searchAll rest = .ok those ∧ found = these ++ those := by
  obtain ⟨these, hthese, hrest⟩ := except_bind_eq_ok.mp ((h.cons n rest).symm.trans hfound)
  obtain ⟨those, hthose, heq⟩ := except_bind_eq_ok.mp hrest
  cases heq
  exact ⟨these, those, hthese, hthose, rfl⟩

/-- What a search of a tree has found: the tree's own node, and what lies below it if it is
entered. -/
theorem search_eq_ok (h : Finds enters wanted search searchAll) (hfound : search n = .ok found) :
    ∃ own, Own wanted n own ∧ (¬ enters n ∧ found = own ∨ enters n ∧ ∃ below,
      n.children = .ok n.subtrees ∧ searchAll n.subtrees = .ok below ∧ found = own ++ below) := by
  by_cases hn : enters n
  · obtain ⟨own, hown, hsearch⟩ := h.entered n hn
    obtain ⟨ns, hns, hrest⟩ := except_bind_eq_ok.mp (hsearch.symm.trans hfound)
    obtain ⟨below, hbelow, heq⟩ := except_bind_eq_ok.mp hrest
    cases heq
    obtain rfl := subtrees_of_children hns
    exact ⟨own, hown, .inr ⟨hn, below, hns, hbelow, rfl⟩⟩
  · obtain ⟨own, hown, hsearch⟩ := h.passed n hn
    cases hsearch.symm.trans hfound
    exact ⟨_, hown, .inl ⟨hn, rfl⟩⟩

theorem mem_tree (h : Finds enters wanted search searchAll) (hfound : search n = .ok found)
    (hbelow : ∀ {below}, searchAll n.subtrees = .ok below → m ∈ below →
      wanted m ∧ ∃ c ∈ n.subtrees, c.Contains m) (hm : m ∈ found) : wanted m ∧ n.Contains m := by
  obtain ⟨own, hown, ⟨_, rfl⟩ | ⟨_, below, hns, hall, rfl⟩⟩ := h.search_eq_ok hfound
  · obtain ⟨hw, rfl⟩ := hown.mem hm
    exact ⟨hw, .self m⟩
  · rcases List.mem_append.mp hm with hm | hm
    · obtain ⟨hw, rfl⟩ := hown.mem hm
      exact ⟨hw, .self m⟩
    · obtain ⟨hw, c, hc, hcm⟩ := hbelow hall hm
      exact ⟨hw, .under hns hc hcm⟩

/-- What is found is wanted and lies in one of the trees. -/
theorem mem (h : Finds enters wanted search searchAll) (hfound : searchAll ns = .ok found)
    (hm : m ∈ found) : wanted m ∧ ∃ n ∈ ns, n.Contains m := by
  induction ns using forest_induction generalizing found with
  | nil =>
    cases h.nil.symm.trans hfound
    cases hm
  | cons n rest ihbelow ihrest =>
    obtain ⟨these, those, hthese, hthose, rfl⟩ := h.cons_eq_ok hfound
    rcases List.mem_append.mp hm with hm | hm
    · obtain ⟨hw, hcm⟩ := h.mem_tree hthese ihbelow hm
      exact ⟨hw, n, List.mem_cons_self, hcm⟩
    · obtain ⟨hw, c, hc, hcm⟩ := ihrest hthose hm
      exact ⟨hw, c, List.mem_cons_of_mem n hc, hcm⟩

theorem search_eq_error (h : Finds enters wanted search searchAll) (he : search n = .error e) :
    enters n ∧ (n.children = .error e ∨
      n.children = .ok n.subtrees ∧ searchAll n.subtrees = .error e) := by
  by_cases hn : enters n
  · obtain ⟨own, _, hsearch⟩ := h.entered n hn
    rcases except_bind_eq_error.mp (hsearch.symm.trans he) with htorn | ⟨ns, hns, hrest⟩
    · exact ⟨hn, .inl htorn⟩
    · obtain rfl := subtrees_of_children hns
      rcases except_bind_eq_error.mp hrest with hall | ⟨_, _, hno⟩
      · exact ⟨hn, .inr ⟨hns, hall⟩⟩
      · cases hno
  · obtain ⟨own, _, hsearch⟩ := h.passed n hn
    cases hsearch.symm.trans he

theorem exists_of_mem (h : Finds enters wanted search searchAll) (hfound : searchAll ns = .ok found)
    (hn : n ∈ ns) : ∃ these, search n = .ok these := by
  induction ns generalizing found with
  | nil => cases hn
  | cons first rest ih =>
    obtain ⟨these, those, hthese, hthose, _⟩ := h.cons_eq_ok hfound
    rcases List.mem_cons.mp hn with rfl | hn
    · exact ⟨these, hthese⟩
    · exact ih hthose hn

/-- A search fails only where the front end fails to list the children of a node, and it comes to
that node through nodes that it enters. -/
theorem exists_torn {comes : Node → Node → Prop} (h : Finds enters wanted search searchAll)
    (hself : ∀ {n}, enters n → comes n n)
    (hunder : ∀ {n c y ns}, enters n → n.children = .ok ns → c ∈ ns → comes c y → comes n y)
    (he : searchAll ns = .error e) : ∃ n ∈ ns, ∃ y, comes n y ∧ y.children = .error e := by
  induction ns using forest_induction with
  | nil => cases h.nil.symm.trans he
  | cons n rest ihbelow ihrest =>
    rcases except_bind_eq_error.mp ((h.cons n rest).symm.trans he) with hn | ⟨_, _, hrest⟩
    · obtain ⟨henter, htorn | ⟨hns, hall⟩⟩ := h.search_eq_error hn
      · exact ⟨n, List.mem_cons_self, n, hself henter, htorn⟩
      · obtain ⟨c, hc, y, hy, hye⟩ := ihbelow hall
        exact ⟨n, List.mem_cons_self, y, hunder henter hns hc hy, hye⟩
    · rcases except_bind_eq_error.mp hrest with hall | ⟨_, _, hno⟩
      · obtain ⟨c, hc, hy⟩ := ihrest hall
        exact ⟨c, List.mem_cons_of_mem n hc, hy⟩
      · cases hno

theorem mem_children (h : Finds enters wanted search searchAll)
    (hfound : n.children >>= searchAll = .ok found) (hm : m ∈ found) :
    wanted m ∧ n.Contains m := by
  obtain ⟨ns, hns, hall⟩ := except_bind_eq_ok.mp hfound
  obtain ⟨hw, c, hc, hcm⟩ := h.mem hall hm
  exact ⟨hw, .under hns hc hcm⟩

theorem exists_torn_children (h : Finds enters wanted search searchAll)
    (he : n.children >>= searchAll = .error e) : ∃ y, n.Contains y ∧ y.children = .error e := by
  rcases except_bind_eq_error.mp he with htorn | ⟨ns, hns, hall⟩
  · exact ⟨n, .self n, htorn⟩
  · obtain ⟨c, hc, y, hy, hye⟩ := h.exists_torn (fun _ => Contains.self _) (fun _ => .under) hall
    exact ⟨y, .under hns hc hy, hye⟩

end Finds

/-- A declaration through which definitions are indexed: one of the scopes, in some file. -/
structure IsScope (n : Node) : Prop where
  located : n.info.place.isSome
  holds : n.kind.holdsDefinitions = true
  outside : n.isFunctionDefinition = false

/-- A function definition in some file. -/
structure IsIndexable (n : Node) : Prop where
  located : n.info.place.isSome
  definition : n.isFunctionDefinition = true

variable {n : Node} {file : String}

theorem isIn_iff : n.isIn file = true ↔ n.file? = some file := by
  simp [isIn]

theorem children_bind_mk {α : Type} {id : Nat} {info : NodeInfo} {children : List Node}
    (f : List Node → Except Failure α) :
    (Node.mk id info children).children >>= f =
      info.failure.elim (f children) fun reason => .error (.children reason) := by
  unfold Node.children Node.info Node.subtrees
  cases info.failure <;> rfl

theorem IsScope.not_indexable (h : n.IsScope) : ¬ n.IsIndexable :=
  fun hd => Bool.false_ne_true (h.outside.symm.trans hd.definition)

theorem finds_indexedDefinitions :
    Finds IsScope IsIndexable indexedDefinitions indexedDefinitionsAll where
  nil := rfl
  cons n rest := by
    rw [indexedDefinitionsAll]
    cases indexedDefinitions n with
    | error e => rfl
    | ok these => cases indexedDefinitionsAll rest <;> rfl
  entered n h := by
    refine ⟨[], .inr ⟨h.not_indexable, rfl⟩, ?_⟩
    obtain ⟨id, info, children⟩ := n
    have hholds : info.kind.holdsDefinitions = true := h.holds
    have hlocated : info.place.isNone = false := by simpa [Node.info] using h.located
    rw [indexedDefinitions, children_bind_mk]
    simp only [hlocated, h.outside, hholds, Bool.false_eq_true, ↓reduceIte]
    cases info.failure with
    | some reason => rfl
    | none => cases indexedDefinitionsAll children <;> rfl
  passed n h := by
    obtain ⟨id, info, children⟩ := n
    rw [indexedDefinitions]
    split
    next hnowhere =>
      refine ⟨[], .inr ⟨fun hd => ?_, rfl⟩, rfl⟩
      simpa [Node.info, Option.isNone_iff_eq_none.mp hnowhere] using hd.located
    next hplace =>
      have hlocated : (Node.mk id info children).info.place.isSome := by
        simpa [Node.info, Option.isSome_iff_ne_none] using hplace
      split
      next hdef => exact ⟨_, .inl ⟨⟨hlocated, hdef⟩, rfl⟩, rfl⟩
      next hdef =>
        split
        next hholds => exact absurd ⟨hlocated, hholds, by simpa using hdef⟩ h
        next => exact ⟨[], .inr ⟨fun hd => hdef hd.definition, rfl⟩, rfl⟩

/-- A function with its body, of one of the five kinds of functions. -/
structure DefinesFunction (n : Node) : Prop where
  function : n.kind = .functionDecl ∨ n.kind = .method ∨ n.kind = .constructorDecl ∨
    n.kind = .destructorDecl ∨ n.kind = .functionTemplate
  body : n.info.isDefinition = true

theorem isFunctionDefinition_iff : n.isFunctionDefinition = true ↔ n.DefinesFunction := by
  have hkind : n.kind.isFunction = true ↔ n.kind = .functionDecl ∨ n.kind = .method ∨
      n.kind = .constructorDecl ∨ n.kind = .destructorDecl ∨ n.kind = .functionTemplate := by
    cases n.kind <;> simp [NodeKind.isFunction]
  rw [isFunctionDefinition, Bool.and_eq_true, hkind]
  exact ⟨fun h => ⟨h.1, h.2⟩, fun h => ⟨h.function, h.body⟩⟩

/-- The definition of a function, in the file. -/
structure IsDefinitionOf (file : String) (n : Node) : Prop where
  located : n.file? = some file
  defines : n.DefinesFunction

/-- Function definitions are looked for below the nodes of a file that are none themselves. -/
structure IsSearched (file : String) (n : Node) : Prop where
  located : n.isIn file = true
  outside : n.isFunctionDefinition = false

theorem IsSearched.not_definition (h : n.IsSearched file) : ¬ n.IsDefinitionOf file :=
  fun hd => Bool.false_ne_true (h.outside.symm.trans (isFunctionDefinition_iff.mpr hd.defines))

theorem finds_definitionsIn (file : String) :
    Finds (IsSearched file) (IsDefinitionOf file) (definitionsIn file) (definitionsInAll file) where
  nil := rfl
  cons n rest := by
    rw [definitionsInAll]
    cases definitionsIn file n with
    | error e => rfl
    | ok these => cases definitionsInAll file rest <;> rfl
  entered n h := by
    refine ⟨[], .inr ⟨h.not_definition, rfl⟩, ?_⟩
    obtain ⟨id, info, children⟩ := n
    rw [definitionsIn, children_bind_mk]
    simp only [h.located, h.outside, Bool.not_true, Bool.false_eq_true, ↓reduceIte]
    cases info.failure with
    | some reason => rfl
    | none => cases definitionsInAll file children <;> rfl
  passed n h := by
    obtain ⟨id, info, children⟩ := n
    rw [definitionsIn]
    split
    next hout => exact ⟨[], .inr ⟨fun hd => by simp [isIn, hd.located] at hout, rfl⟩, rfl⟩
    next hin =>
      split
      next hdef =>
        have hlocated : (Node.mk id info children).file? = some file := by simpa [isIn] using hin
        exact ⟨_, .inl ⟨⟨hlocated, isFunctionDefinition_iff.mp hdef⟩, rfl⟩, rfl⟩
      next hdef => exact absurd ⟨by simpa using hin, by simpa using hdef⟩ h

/-- A loop statement in the file. -/
structure IsLoopOf (file : String) (m : Node) : Prop where
  loop : m.kind = .forLoop ∨ m.kind = .rangeForLoop ∨ m.kind = .whileLoop ∨ m.kind = .doLoop
  located : m.file? = some file

theorem isLoop_iff : n.kind.isLoop = true ↔
    n.kind = .forLoop ∨ n.kind = .rangeForLoop ∨ n.kind = .whileLoop ∨ n.kind = .doLoop := by
  cases n.kind <;> simp [NodeKind.isLoop]

theorem finds_loopsIn (file : String) :
    Finds (fun n => n.file? = some file) (IsLoopOf file) (loopsIn file) (loopsInAll file) where
  nil := rfl
  cons n rest := by
    rw [loopsInAll]
    cases loopsIn file n with
    | error e => rfl
    | ok these => cases loopsInAll file rest <;> rfl
  entered n h := by
    obtain ⟨id, info, children⟩ := n
    refine ⟨if info.kind.isLoop then [.mk id info children] else [], ?_, ?_⟩
    · split
      next hloop => exact .inl ⟨⟨isLoop_iff.mp hloop, h⟩, rfl⟩
      next hloop => exact .inr ⟨fun hm => hloop (isLoop_iff.mpr hm.loop), rfl⟩
    · rw [loopsIn, children_bind_mk]
      simp only [isIn, h, decide_true, Bool.not_true, Bool.false_eq_true, ↓reduceIte]
      cases info.failure with
      | some reason => rfl
      | none =>
        cases loopsInAll file children with
        | error e => rfl
        | ok below => cases info.kind.isLoop <;> rfl
  passed n h := by
    obtain ⟨id, info, children⟩ := n
    refine ⟨[], .inr ⟨fun hm => h hm.located, rfl⟩, ?_⟩
    rw [loopsIn]
    simp [isIn, h]

end Node

namespace TranslationUnit

variable {u : TranslationUnit} {path : String} {found : List Node} {m : Node}

/-- The node is one of the unit's: it is listed by number, or lies in the tree. -/
def Has (u : TranslationUnit) (n : Node) : Prop :=
  n ∈ u.nodes ∨ u.root.Contains n

theorem has_functionDefinitions (h : u.functionDefinitions path = .ok found) (hm : m ∈ found) :
    m.file? = some (Path.normalize path) ∧ u.Has m := by
  obtain ⟨hd, hroot⟩ := (Node.finds_definitionsIn _).mem_children h hm
  exact ⟨hd.located, .inr hroot⟩

theorem has_loops (h : u.loops path = .ok found) (hm : m ∈ found) :
    m.file? = some (Path.normalize path) ∧ u.Has m := by
  obtain ⟨hl, hroot⟩ := (Node.finds_loopsIn _).mem_children h hm
  exact ⟨hl.located, .inr hroot⟩

/-- Only a node whose children cannot be listed makes the search for definitions fail. -/
theorem functionDefinitions_eq_error {e : Failure} (h : u.functionDefinitions path = .error e) :
    ∃ reason, e = .children reason := by
  obtain ⟨_, _, hye⟩ := (Node.finds_definitionsIn _).exists_torn_children h
  obtain ⟨reason, _, he⟩ := Node.children_eq_error.mp hye
  exact ⟨reason, he⟩

theorem indexed_eq_error {e : Failure} (h : u.indexed = .error e) :
    ∃ reason, e = .children reason := by
  obtain ⟨_, _, hye⟩ := Node.finds_indexedDefinitions.exists_torn_children h
  obtain ⟨reason, _, he⟩ := Node.children_eq_error.mp hye
  exact ⟨reason, he⟩

/-- The log gets to know how many definitions were found; the search does not depend on it. -/
theorem listFunctions_result {σ : Type} [HasLog σ] (u : TranslationUnit) (path : String) (st : σ) :
    ((u.listFunctions path).run st).1 = u.functionDefinitions path := by
  unfold listFunctions
  cases u.functionDefinitions path <;> rfl

end TranslationUnit

end NPlusOne
