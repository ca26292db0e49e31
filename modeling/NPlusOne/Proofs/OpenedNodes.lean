import NPlusOne.LoopWalk
import NPlusOne.Proofs.NodeSites

namespace NPlusOne

namespace Node

variable {enters : Node → Prop} {search : Node → Except Failure (List Node)}
  {searchAll : List Node → Except Failure (List Node)} {n : Node} {ns : List Node} {e : Failure}

/-- Trees are searched in turn; the search of a tree that it enters goes through its children. -/
structure Searches (enters : Node → Prop) (search : Node → Except Failure (List Node))
    (searchAll : List Node → Except Failure (List Node)) : Prop where
  nil : ∃ found, searchAll [] = .ok found
  cons : ∀ n rest, searchAll (n :: rest) =
    search n >>= fun these => searchAll rest >>= fun those => .ok (these ++ those)
  entered : ∀ n, enters n → search n = n.children >>= searchAll
  passed : ∀ n, ¬ enters n → ∃ found, search n = .ok found

/-- The nodes that are opened when trees are searched in turn; those of a tree come up once the
trees before it have been searched. -/
inductive Opens (enters : Node → Prop) (search : Node → Except Failure (List Node)) :
    List Node → Node → Prop
  | self {n rest} : enters n → Opens enters search (n :: rest) n
  | inside {n rest ns y} : enters n → n.children = .ok ns → Opens enters search ns y →
    Opens enters search (n :: rest) y
  | behind {n rest these y} : search n = .ok these → Opens enters search rest y →
    Opens enters search (n :: rest) y

namespace Searches

theorem cons_eq_error (h : Searches enters search searchAll) {rest : List Node} :
    searchAll (n :: rest) = .error e ↔
      search n = .error e ∨ ∃ these, search n = .ok these ∧ searchAll rest = .error e := by
  rw [h.cons]
  simp [except_bind_eq_error]

theorem eq_error (h : Searches enters search searchAll) :
    search n = .error e ↔
      enters n ∧ (n.children = .error e ∨ ∃ ns, n.children = .ok ns ∧ searchAll ns = .error e) := by
  by_cases hn : enters n
  · rw [h.entered n hn, except_bind_eq_error]
    simp [hn]
  · obtain ⟨found, hfound⟩ := h.passed n hn
    simp [hn, hfound]

theorem exists_opens (h : Searches enters search searchAll) (he : searchAll ns = .error e) :
    ∃ y, Opens enters search ns y ∧ y.children = .error e := by
  induction ns using forest_induction with
  | nil =>
    obtain ⟨found, hfound⟩ := h.nil
    cases hfound.symm.trans he
  | cons n rest ihbelow ihrest =>
    rcases h.cons_eq_error.mp he with hn | ⟨these, hthese, hrest⟩
    · obtain ⟨henter, htorn | ⟨ns, hns, hinside⟩⟩ := h.eq_error.mp hn
      · exact ⟨n, .self henter, htorn⟩
      · obtain rfl := subtrees_of_children hns
        obtain ⟨y, hy, hye⟩ := ihbelow hinside
        exact ⟨y, .inside henter hns hy, hye⟩
    · obtain ⟨y, hy, hye⟩ := ihrest hrest
      exact ⟨y, .behind hthese hy, hye⟩

theorem error_of_opens (h : Searches enters search searchAll) {y : Node}
    (hy : Opens enters search ns y) (he : y.children = .error e) : searchAll ns = .error e := by
  induction hy with
  | self henter => exact h.cons_eq_error.mpr (.inl (h.eq_error.mpr ⟨henter, .inl he⟩))
  | inside henter hns _ ih =>
    exact h.cons_eq_error.mpr (.inl (h.eq_error.mpr ⟨henter, .inr ⟨_, hns, ih he⟩⟩))
  | behind hthese _ ih => exact h.cons_eq_error.mpr (.inr ⟨_, hthese, ih he⟩)

end Searches

/-- A search that enters no node that it wants passes on what it finds among the children. -/
theorem Finds.searches {wanted : Node → Prop} (h : Finds enters wanted search searchAll)
    (hwanted : ∀ n, enters n → ¬ wanted n) : Searches enters search searchAll where
  nil := ⟨[], h.nil⟩
  cons := h.cons
  entered n hn := by
    obtain ⟨own, ⟨hw, _⟩ | ⟨_, rfl⟩, hsearch⟩ := h.entered n hn
    · exact absurd hw (hwanted n hn)
    · rw [hsearch]
      refine bind_congr fun ns => ?_
      cases searchAll ns <;> rfl
  passed n hn := by
    obtain ⟨own, _, hsearch⟩ := h.passed n hn
    exact ⟨own, hsearch⟩

theorem searches_definitionsIn (file : String) :
    Searches (IsSearched file) (definitionsIn file) (definitionsInAll file) :=
  (finds_definitionsIn file).searches fun _ => IsSearched.not_definition

theorem searches_indexedDefinitions :
    Searches IsScope indexedDefinitions indexedDefinitionsAll :=
  finds_indexedDefinitions.searches fun _ => IsScope.not_indexable

/-- The nodes that are opened to see whether a plain name stands behind parentheses and
conversions. -/
inductive Unwraps : Node → Node → Prop
  | self {n : Node} : n.kind.isWrapper = true → Unwraps n n
  | inner {n c y : Node} : n.kind.isWrapper = true → n.children = .ok [c] → Unwraps c y →
    Unwraps n y

theorem isPlainName_eq_error : n.isPlainName = .error e ↔
    n.kind.isWrapper = true ∧
      (n.children = .error e ∨ ∃ c, n.children = .ok [c] ∧ c.isPlainName = .error e) := by
  obtain ⟨id, info, children⟩ := n
  conv => lhs; unfold isPlainName
  simp only [Node.children, Node.kind, Node.info, Node.subtrees]
  cases info.kind.isWrapper with
  | false => simp
  | true =>
    cases info.failure with
    | some reason => simp
    | none => rcases children with _ | ⟨c, _ | ⟨c', rest⟩⟩ <;> simp

theorem exists_unwraps (n : Node) (h : n.isPlainName = .error e) :
    ∃ y, n.Unwraps y ∧ y.children = .error e := by
  obtain ⟨hwraps, htorn | ⟨c, hc, hinner⟩⟩ := isPlainName_eq_error.mp h
  · exact ⟨n, .self hwraps, htorn⟩
  · have hsize : n.size = c.size + 1 := by
      rw [size_eq, ← subtrees_of_children hc]
      rfl
    obtain ⟨y, hy, hye⟩ := exists_unwraps c hinner
    exact ⟨y, .inner hwraps hc hy, hye⟩
termination_by n.size

theorem error_of_unwraps {y : Node} (hy : n.Unwraps y) (he : y.children = .error e) :
    n.isPlainName = .error e := by
  induction hy with
  | self hwraps => exact isPlainName_eq_error.mpr ⟨hwraps, .inl he⟩
  | inner hwraps hc _ ih => exact isPlainName_eq_error.mpr ⟨hwraps, .inr ⟨_, hc, ih he⟩⟩

end Node

namespace Cursor

/-- The nodes that are opened to see which function a call names. -/
def Inspects (call : Cursor) (y : Node) : Prop :=
  ∃ callee, call.referenced? = some callee ∧ callee.node.kind.isCallable = true ∧
    (y = call.node ∨ ∃ expr rest, call.node.children = .ok (expr :: rest) ∧ expr.Unwraps y)

theorem simpleCallee_eq_error {call : Cursor} {e : Failure} : call.simpleCallee = .error e ↔
    ∃ callee, call.referenced? = some callee ∧ callee.node.kind.isCallable = true ∧
      (call.node.children = .error e ∨
        ∃ expr rest, call.node.children = .ok (expr :: rest) ∧ expr.isPlainName = .error e) := by
  unfold simpleCallee
  cases call.referenced? with
  | none => simp
  | some callee =>
    cases hcallable : callee.node.kind.isCallable with
    | false => simp [hcallable]
    | true =>
      rcases call.node.children with e' | _ | ⟨expr, rest⟩
      · simp [hcallable]
      · simp [hcallable]
      · cases hplain : expr.isPlainName <;> simp [hcallable, hplain]

theorem simpleCallee_fails_iff {call : Cursor} {e : Failure} :
    call.simpleCallee = .error e ↔ ∃ y, call.Inspects y ∧ y.children = .error e := by
  rw [simpleCallee_eq_error]
  constructor
  · rintro ⟨callee, href, hcallable, hcall | ⟨expr, rest, hns, hexpr⟩⟩
    · exact ⟨call.node, ⟨callee, href, hcallable, .inl rfl⟩, hcall⟩
    · obtain ⟨y, hy, hye⟩ := expr.exists_unwraps hexpr
      exact ⟨y, ⟨callee, href, hcallable, .inr ⟨expr, rest, hns, hy⟩⟩, hye⟩
  · rintro ⟨y, ⟨callee, href, hcallable, rfl | ⟨expr, rest, hns, hy⟩⟩, hye⟩
    · exact ⟨callee, href, hcallable, .inl hye⟩
    · exact ⟨callee, href, hcallable, .inr ⟨expr, rest, hns, Node.error_of_unwraps hy hye⟩⟩

/-- A call that names a function, or none, has been inspected without a failure. -/
theorem Inspects.ne_error {call : Cursor} {callee? : Option Cursor} {y : Node} {e : Failure}
    (hy : call.Inspects y) (h : call.simpleCallee = .ok callee?) : y.children ≠ .error e := by
  intro hye
  cases h.symm.trans (simpleCallee_fails_iff.mpr ⟨y, hy, hye⟩)

end Cursor

namespace TranslationUnit

variable {u : TranslationUnit} {enters : Node → Prop}
  {search : Node → Except Failure (List Node)}
  {searchAll : List Node → Except Failure (List Node)} {e : Failure}

/-- The nodes that are opened when the trees below the top of the unit are searched. -/
def Opens (u : TranslationUnit) (enters : Node → Prop)
    (search : Node → Except Failure (List Node)) (y : Node) : Prop :=
  y = u.root ∨ ∃ ns, u.root.children = .ok ns ∧ Node.Opens enters search ns y

theorem search_fails_iff (h : Node.Searches enters search searchAll) :
    u.root.children >>= searchAll = .error e ↔
      ∃ y, u.Opens enters search y ∧ y.children = .error e := by
  rw [except_bind_eq_error]
  constructor
  · rintro (hroot | ⟨ns, hns, hall⟩)
    · exact ⟨u.root, .inl rfl, hroot⟩
    · obtain ⟨y, hy, hye⟩ := h.exists_opens hall
      exact ⟨y, .inr ⟨ns, hns, hy⟩, hye⟩
  · rintro ⟨y, rfl | ⟨ns, hns, hy⟩, hye⟩
    · exact .inl hye
    · exact .inr ⟨ns, hns, h.error_of_opens hy hye⟩

/-- The nodes that are opened when the function definitions of a file are looked for. -/
abbrev OpensForDefinitions (u : TranslationUnit) (path : String) : Node → Prop :=
  u.Opens (Node.IsSearched (Path.normalize path)) (Node.definitionsIn (Path.normalize path))

/-- The nodes that are opened when the definitions of the unit are indexed. -/
abbrev OpensForIndex (u : TranslationUnit) : Node → Prop :=
  u.Opens Node.IsScope Node.indexedDefinitions

theorem functionDefinitions_fails_iff {path : String} : u.functionDefinitions path = .error e ↔
    ∃ y, u.OpensForDefinitions path y ∧ y.children = .error e :=
  search_fails_iff (Node.searches_definitionsIn _)

theorem indexed_fails_iff : u.indexed = .error e ↔
    ∃ y, u.OpensForIndex y ∧ y.children = .error e :=
  search_fails_iff Node.searches_indexedDefinitions

end TranslationUnit

end NPlusOne
