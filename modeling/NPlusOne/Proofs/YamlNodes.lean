import NPlusOne.Proofs.YamlReading

namespace NPlusOne

namespace Yaml

/-- A node, among those that were read, stands for a value. The parts of a list or a map come behind
it. -/
inductive Depicts (nodes : Array Node) : Nat → Value → Prop
  | atom {id : Nat} {v : Value} {text : List Char} {plain : Bool} :
    nodes[id]? = some (.scalar (Parse.scalarTag none (String.ofList text) plain)
      (String.ofList text)) → Means text plain v → Depicts nodes id v
  | list {id : Nat} {ids : List Nat} {vs : List Value} :
    nodes[id]? = some (.sequence (coreTag "seq") ids) → (∀ i ∈ ids, id < i) →
    ids.length = vs.length → (∀ i v, (i, v) ∈ ids.zip vs → Depicts nodes i v) →
    Depicts nodes id (.list vs)
  | map {id : Nat} {ids : List (Nat × Nat)} {es : List (Value × Value)} :
    nodes[id]? = some (.mapping (coreTag "map") ids) → (∀ i ∈ ids, id < i.1 ∧ id < i.2) →
    Keyed es → ids.length = es.length →
    (∀ i e, (i, e) ∈ ids.zip es → Depicts nodes i.1 e.1) →
    (∀ i e, (i, e) ∈ ids.zip es → Depicts nodes i.2 e.2) → Depicts nodes id (.map es)

theorem Depicts.lt_size {nodes : Array Node} {id : Nat} {v : Value} (h : Depicts nodes id v) :
    id < nodes.size := by
  cases h with
  | atom hid | list hid | map hid => exact (Array.getElem?_eq_some_iff.mp hid).1

/-- What stands before a node does not matter, nor what is added behind all nodes. -/
theorem Depicts.mono {nodes nodes' : Array Node} {id : Nat} {v : Value} (h : Depicts nodes id v)
    (hsame : ∀ j, id ≤ j → j < nodes.size → nodes'[j]? = nodes[j]?) : Depicts nodes' id v := by
  have hself := hsame id (Nat.le_refl id) h.lt_size
  induction h with
  | atom hid hm => exact .atom (hself.trans hid) hm
  | list hid hlt hlen hvs ih =>
    refine .list (hself.trans hid) hlt hlen fun i v hm => ?_
    have hi := hlt i (List.of_mem_zip hm).1
    exact ih i v hm (fun j hj => hsame j (by omega)) (hsame i (by omega) (hvs i v hm).lt_size)
  | map hid hlt hkeyed hlen hks hvs ihk ihv =>
    refine .map (hself.trans hid) hlt hkeyed hlen (fun i e hm => ?_) fun i e hm => ?_
    · have hi := (hlt i (List.of_mem_zip hm).1).1
      exact ihk i e hm (fun j hj => hsame j (by omega)) (hsame i.1 (by omega) (hks i e hm).lt_size)
    · have hi := (hlt i (List.of_mem_zip hm).1).2
      exact ihv i e hm (fun j hj => hsame j (by omega)) (hsame i.2 (by omega) (hvs i e hm).lt_size)

/-- The nodes that were there stay as they are. -/
structure Extends (nodes nodes' : Array Node) : Prop where
  size_le : nodes.size ≤ nodes'.size
  same : ∀ j < nodes.size, nodes'[j]? = nodes[j]?

variable {nodes nodes' nodes'' : Array Node} {opened : List Nat} {ts ts' ts'' : List Token}
  {id : Nat} {v : Value}

theorem Extends.refl (nodes : Array Node) : Extends nodes nodes := ⟨Nat.le_refl _, fun _ _ => rfl⟩

theorem Extends.trans (h : Extends nodes nodes') (h' : Extends nodes' nodes'') :
    Extends nodes nodes'' :=
  ⟨h.size_le.trans h'.size_le,
    fun j hj => (h'.same j (Nat.lt_of_lt_of_le hj h.size_le)).trans (h.same j hj)⟩

theorem Extends.push (node : Node) : Extends nodes (nodes.push node) := by
  refine ⟨by simp, fun j hj => ?_⟩
  rw [Array.getElem?_push_lt hj, Array.getElem?_eq_getElem hj]

theorem Extends.depicts (h : Extends nodes nodes') (hd : Depicts nodes id v) :
    Depicts nodes' id v :=
  hd.mono fun j _ hj => h.same j hj

/-- Nodes that are read, with the open ones. -/
abbrev reading (scan : ScanState) (nodes : Array Node) (opened : List Nat) : ParseState :=
  { scan, nodes, opened }

/-- Tokens are read, whether the first of them is known already or not. -/
def Offers (known : Bool) (scan : ScanState) (ts : List Token) : Prop :=
  if known then scan.Ready ts else Streams scan ts

theorem Offers.streams {known : Bool} {scan : ScanState} (h : Offers known scan ts) :
    Streams scan ts := by
  cases known with
  | true => exact ScanState.Ready.streams h
  | false => exact h

/-- A step takes tokens and gives a result, and the nodes that it reads are added to the others. -/
def Parses {α : Type} (known : Bool) (m : Parse α) (ts ts' : List Token) (nodes : Array Node)
    (opened : List Nat) (a : α) (nodes' : Array Node) : Prop :=
  ∀ scan, Offers known scan ts → ∃ scan', Streams scan' ts' ∧
    m.run (reading scan nodes opened) = .ok (a, reading scan' nodes' opened)

section Steps

variable {α β : Type} {known : Bool} {x : Parse α} {f : α → Parse β} {a : α} {b : β} {t : Token}

theorem Parses.weaken (h : Parses false x ts ts' nodes opened a nodes') (known : Bool) :
    Parses known x ts ts' nodes opened a nodes' :=
  fun scan hs => h scan hs.streams

theorem Parses.bind (h : Parses known x ts ts' nodes opened a nodes')
    (hf : Parses false (f a) ts' ts'' nodes' opened b nodes'') :
    Parses known (x >>= f) ts ts'' nodes opened b nodes'' := by
  intro scan hs
  obtain ⟨scan', hs', hrun⟩ := h scan hs
  obtain ⟨scan'', hs'', hrun'⟩ := hf scan' hs'
  exact ⟨scan'', hs'', (run_bind_ok hrun).trans hrun'⟩

theorem parses_pure (a : α) : Parses known (pure a) ts ts nodes opened a nodes :=
  fun scan hs => ⟨scan, hs.streams, rfl⟩

theorem parses_peek_bind {f : Option Token → Parse β}
    (h : Parses true (f ts.head?) ts ts' nodes opened b nodes') :
    Parses known (Parse.peek >>= f) ts ts' nodes opened b nodes' := by
  intro scan hs
  obtain ⟨scan', hpeek, hready⟩ := hs.streams.peek
  obtain ⟨scan'', hs'', hrun⟩ := h scan' hready
  refine ⟨scan'', hs'', (run_bind_ok ?_).trans hrun⟩
  rw [Parse.peek, Parse.ofScan, run_get_bind]
  have hlift : (liftM (Scan.peek.run scan) : Parse (Option Token × ScanState)).run
      (reading scan nodes opened) = .ok ((ts.head?, scan'), reading scan nodes opened) := by
    rw [hpeek]
    rfl
  exact (run_bind_ok hlift).trans rfl

theorem parses_drop : Parses true Parse.drop (t :: ts) ts nodes opened () nodes := by
  intro scan hs
  obtain ⟨scan', hdrop, hs'⟩ := ScanState.Ready.drop hs
  cases hdrop
  exact ⟨_, hs', rfl⟩

theorem parses_sees {seen : List Token} {b : Bool} (h : ts.head?.any (seen.contains ·) = b) :
    Parses known (Parse.sees seen) ts ts nodes opened b nodes := by
  rw [Parse.sees]
  refine parses_peek_bind ?_
  cases ts with
  | nil =>
    subst h
    exact parses_pure _
  | cons t ts =>
    subst h
    exact parses_pure _

theorem parses_accept : Parses known (Parse.accept t) (t :: ts) ts nodes opened true nodes := by
  rw [Parse.accept, Parse.sees, bind_assoc]
  refine parses_peek_bind ?_
  simp only [List.head?_cons, pure_bind, List.contains_cons, beq_self_eq_true, Bool.true_or,
    if_true]
  exact parses_drop.bind (parses_pure true)

theorem parses_accept_not (h : ts.head? ≠ some t) :
    Parses known (Parse.accept t) ts ts nodes opened false nodes := by
  rw [Parse.accept]
  refine (parses_sees (b := false) ?_).bind (parses_pure false)
  cases ts with
  | nil => rfl
  | cons t' ts =>
    have hne : t' ≠ t := fun heq => h (heq ▸ rfl)
    simpa using hne

theorem parses_expect : Parses known (Parse.expect t) (t :: ts) ts nodes opened () nodes := by
  rw [Parse.expect]
  exact parses_accept.bind (parses_pure ())

/-- A token with which a value begins, and not its name or tag. -/
def Token.isPlainStart : Token → Bool
  | .alias _ => false
  | .anchor _ => false
  | .tag _ _ => false
  | _ => true

theorem parses_properties (h : ∀ t ∈ ts.head?, t.isPlainStart = true) :
    Parses known Parse.properties ts ts nodes opened {} nodes := by
  have hanchor : ∀ known, Parses known Parse.anchorProperty ts ts nodes opened none nodes := by
    intro known
    rw [Parse.anchorProperty]
    refine parses_peek_bind ?_
    cases ts with
    | nil => exact parses_pure none
    | cons t ts =>
      have hstart := h t rfl
      cases t with
      | anchor => cases hstart
      | _ => exact parses_pure none
  have htag : Parses false Parse.tagProperty ts ts nodes opened none nodes := by
    rw [Parse.tagProperty]
    refine parses_peek_bind ?_
    cases ts with
    | nil => exact parses_pure none
    | cons t ts =>
      have hstart := h t rfl
      cases t with
      | tag => cases hstart
      | _ => exact parses_pure none
  rw [Parse.properties]
  exact (hanchor known).bind (htag.bind (parses_pure _))

variable {handles : Parse.Handles} {style : Parse.Style} {n : Nat}

theorem parses_node (h : ∀ t ∈ ts.head?, t.isPlainStart = true)
    (hc : Parses false (Parse.content handles style none none n) ts ts' nodes opened id nodes') :
    Parses known (Parse.node handles style (n + 1)) ts ts' nodes opened id nodes' := by
  rw [Parse.node]
  refine parses_peek_bind ?_
  have hrest : Parses true (do
      let props ← Parse.properties
      let tag ← Parse.fullTag handles props.tag
      Parse.content handles style props.anchor tag n) ts ts' nodes opened id nodes' :=
    (parses_properties h).bind ((parses_pure none).bind hc)
  cases ts with
  | nil => exact hrest
  | cons t ts =>
    have hstart := h t rfl
    cases t with
    | «alias» => cases hstart
    | _ => exact hrest

theorem parses_enclose {start node : Node} {parts : Parse Node}
    (hopen : opened.length < Parse.maxDepth)
    (h : Parses known parts ts ts' (nodes.push start) (nodes.size :: opened) node nodes') :
    Parses known (Parse.enclose none start parts) ts ts' nodes opened nodes.size
      (nodes'.set! nodes.size node) := by
  intro scan hs
  obtain ⟨scan', hs', hrun⟩ := h scan hs
  refine ⟨scan', hs', ?_⟩
  have hadd : (Parse.addNamed none start).run (reading scan nodes opened) =
      .ok (nodes.size, reading scan (nodes.push start) opened) := rfl
  rw [Parse.enclose, run_bind_ok hadd, run_get_bind, if_neg (Nat.not_le.mpr hopen)]
  rw [run_bind_ok rfl]
  exact (run_bind_ok hrun).trans rfl

end Steps

section Contents

variable {known : Bool} {handles : Parse.Handles} {style : Parse.Style} {n : Nat} {ids : List Nat}
  {pairs : List (Nat × Nat)}

theorem parses_scalar (text : String) (plain : Bool) :
    Parses known (Parse.content handles style none none (n + 1)) (.scalar text plain :: ts) ts nodes
      opened nodes.size (nodes.push (.scalar (Parse.scalarTag none text plain) text)) := by
  rw [Parse.content]
  refine parses_peek_bind (parses_drop.bind ?_)
  exact fun scan hs => ⟨scan, hs, rfl⟩

/-- The collections in brackets, with the tokens around them. -/
inductive Bracketed : Token → Token → Node → Prop
  | items : Bracketed .flowSequenceStart .flowSequenceEnd (.sequence (coreTag "seq") [])
  | entries : Bracketed .flowMappingStart .flowMappingEnd (.mapping (coreTag "map") [])

theorem parses_brackets {first last : Token} {node : Node} (hnode : Bracketed first last node)
    (hopen : opened.length < Parse.maxDepth) :
    Parses known (Parse.content handles style none none (n + 2)) (first :: last :: ts) ts nodes
      opened nodes.size ((nodes.push node).set! nodes.size node) := by
  rw [Parse.content]
  cases hnode with
  | items =>
    refine parses_peek_bind (parses_enclose hopen ((parses_drop.bind ?_).bind (parses_pure _)))
    rw [Parse.flowItems]
    exact parses_accept.bind (parses_pure [])
  | entries =>
    refine parses_peek_bind (parses_enclose hopen ((parses_drop.bind ?_).bind (parses_pure _)))
    rw [Parse.flowEntries]
    exact parses_accept.bind (parses_pure [])

theorem parses_looseItems (hopen : opened.length < Parse.maxDepth)
    (h : Parses false (Parse.looseItems handles n) (.blockEntry :: ts) ts'
      (nodes.push (.sequence (coreTag "seq") [])) (nodes.size :: opened) ids nodes') :
    Parses known (Parse.content handles .blockOrItems none none (n + 1)) (.blockEntry :: ts) ts'
      nodes opened nodes.size (nodes'.set! nodes.size (.sequence (coreTag "seq") ids)) := by
  rw [Parse.content]
  exact parses_peek_bind (parses_enclose hopen ((h.weaken true).bind (parses_pure _)))

/-- The collections in a block of their own, with the token in front and what reads the parts. -/
inductive Blocked (handles : Parse.Handles) (n : Nat) :
    (α : Type) → Token → Parse (List α) → (List α → Node) → Prop
  | items : Blocked handles n Nat .blockSequenceStart (Parse.blockItems handles n)
    (.sequence (coreTag "seq"))
  | entries : Blocked handles n (Nat × Nat) .blockMappingStart (Parse.blockEntries handles n)
    (.mapping (coreTag "map"))

theorem parses_block {α : Type} {first : Token} {parts : Parse (List α)} {make : List α → Node}
    {found : List α} (hnode : Blocked handles n α first parts make)
    (hopen : opened.length < Parse.maxDepth) (hstyle : style ≠ .flow)
    (h : Parses false parts ts ts' (nodes.push (make [])) (nodes.size :: opened) found nodes') :
    Parses known (Parse.content handles style none none (n + 1)) (first :: ts) ts' nodes opened
      nodes.size (nodes'.set! nodes.size (make found)) := by
  rw [Parse.content]
  cases hnode with
  | items | entries =>
    refine parses_peek_bind ?_
    cases style with
    | flow => exact absurd rfl hstyle
    | block | blockOrItems =>
      exact parses_enclose hopen ((parses_drop.bind h).bind (parses_pure _))

end Contents

section Items

variable {known loose : Bool} {handles : Parse.Handles} {n : Nat} {ids : List Nat}
  {pairs : List (Nat × Nat)} {k : Nat}

/-- The items of a list, with or without a block of their own. -/
def Parse.items (loose : Bool) (handles : Parse.Handles) (n : Nat) : Parse (List Nat) :=
  if loose then Parse.looseItems handles n else Parse.blockItems handles n

/-- Only the items of a block have an end of their own. -/
def closing (loose : Bool) (ts : List Token) : List Token :=
  if loose then ts else .blockEnd :: ts

/-- The tokens that a value, which is not left out, does not begin with. -/
def Token.isBlockMark : Token → Bool
  | .key => true
  | .value => true
  | .blockEntry => true
  | .blockEnd => true
  | _ => false

theorem sees_eq_false {seen : List Token} (hseen : ∀ t ∈ seen, t.isBlockMark = true)
    (h : ∀ t ∈ ts.head?, t.isBlockMark = false) : ts.head?.any (seen.contains ·) = false := by
  cases ts with
  | nil => rfl
  | cons t ts =>
    rw [List.head?_cons, Option.any_some, ← Bool.not_eq_true, List.contains_iff_mem]
    intro hm
    cases (hseen t hm).symm.trans (h t rfl)

theorem parses_nextItem (ht : ∀ t ∈ ts.head?, t.isBlockMark = false)
    (h : Parses false (Parse.node handles .block n) ts ts' nodes opened id nodes')
    (hrest : Parses false (Parse.items loose handles n) ts' ts'' nodes' opened ids nodes'') :
    Parses known (Parse.items loose handles (n + 1)) (.blockEntry :: ts) ts'' nodes opened
      (id :: ids) nodes'' := by
  have hitem : Parses false (Parse.node handles .block n >>= fun item =>
      Parse.items loose handles n >>= fun ids => pure (item :: ids)) ts ts'' nodes opened
      (id :: ids) nodes'' := h.bind (hrest.bind (parses_pure _))
  cases loose with
  | true =>
    rw [Parse.items, if_pos rfl, Parse.looseItems]
    exact parses_accept.bind ((parses_sees (sees_eq_false (by decide) ht)).bind hitem)
  | false =>
    rw [Parse.items, if_neg (by decide), Parse.blockItems]
    exact parses_accept.bind ((parses_sees (sees_eq_false (by decide) ht)).bind hitem)

theorem parses_lastItem (ht : loose = true → ts.head? ≠ some .blockEntry) :
    Parses known (Parse.items loose handles (n + 1)) (closing loose ts) ts nodes opened []
      nodes := by
  cases loose with
  | true =>
    rw [Parse.items, if_pos rfl, Parse.looseItems]
    exact (parses_accept_not (ht rfl)).bind (parses_pure [])
  | false =>
    rw [Parse.items, if_neg (by decide), Parse.blockItems]
    exact (parses_accept_not (by simp [closing])).bind (parses_expect.bind (parses_pure []))

theorem parses_nextEntry {nodes₁ : Array Node} {ts₁ : List Token}
    (hk : ts.head?.any ([.key, .value, .blockEnd].contains ·) = false)
    (hv : ts₁.head?.any ([.key, .value, .blockEnd].contains ·) = false)
    (h : Parses false (Parse.node handles .blockOrItems n) ts (.value :: ts₁) nodes opened k nodes₁)
    (h' : Parses false (Parse.node handles .blockOrItems n) ts₁ ts' nodes₁ opened id nodes')
    (hrest : Parses false (Parse.blockEntries handles n) ts' ts'' nodes' opened pairs nodes'') :
    Parses known (Parse.blockEntries handles (n + 1)) (.key :: ts) ts'' nodes opened
      ((k, id) :: pairs) nodes'' := by
  rw [Parse.blockEntries]
  refine parses_accept.bind (Parses.bind ((parses_sees hk).bind h) ?_)
  refine parses_accept.bind (Parses.bind ((parses_sees hv).bind h') ?_)
  exact hrest.bind (parses_pure _)

theorem parses_lastEntry :
    Parses known (Parse.blockEntries handles (n + 1)) (.blockEnd :: ts) ts nodes opened []
      nodes := by
  rw [Parse.blockEntries]
  exact (parses_accept_not (by simp)).bind (parses_expect.bind (parses_pure []))

end Items

section Heads

/-- The token that a part begins with. -/
def Piece.Heads : Piece → List Token → Prop
  | .value colon _, ts => ∃ t ts', ts = t :: ts' ∧ t.isPlainStart = true ∧
    (t.isBlockMark = false ∨ colon = true ∧ t = .blockEntry)
  | .items _, ts => ∃ ts', ts = .blockEntry :: ts'
  | _, ts => ∃ ts', ts = .key :: ts'

variable {c : Nat} {piece : Piece} {out : List Char}

theorem Laid.heads (h : Laid c piece out ts) : piece.Heads ts := by
  induction h with
  | atom | noItems | noEntries | list | map => exact ⟨_, _, rfl, rfl, .inl rfl⟩
  | loose _ ih =>
    obtain ⟨ts', rfl⟩ := ih
    exact ⟨_, _, rfl, rfl, .inr ⟨rfl, rfl⟩⟩
  | lastItem | item | simpleKey | longKey => exact ⟨_, rfl⟩
  | lastEntry _ ih => exact ih
  | entry _ _ ih _ =>
    obtain ⟨ts', rfl⟩ := ih
    exact ⟨_, rfl⟩

variable {colon : Bool}

theorem Laid.notMark (h : Laid c (.value false v) out ts) (ts' : List Token) :
    ∀ t ∈ (ts ++ ts').head?, t.isBlockMark = false := by
  obtain ⟨t, ts₀, rfl, _, hmark | ⟨hno, _⟩⟩ := h.heads
  · rintro _ ⟨⟩
    exact hmark
  · cases hno

theorem Laid.notEntryMark (h : Laid c (.value colon v) out ts) (ts' : List Token) :
    (ts ++ ts').head?.any ([.key, .value, .blockEnd].contains ·) = false := by
  obtain ⟨t, ts₀, rfl, _, hmark | ⟨_, rfl⟩⟩ := h.heads
  · refine sees_eq_false (by decide) ?_
    rintro _ ⟨⟩
    exact hmark
  · rfl

end Heads

section Graphs

variable (handles : Parse.Handles)

/-- The nodes that a part of a document gives. -/
def Piece.Parsed : Piece → List Token → Prop
  | .value colon v, ts => ∀ (d n : Nat) (style : Parse.Style) (nodes : Array Node)
    (opened : List Nat) (ts' : List Token), Storable d v → opened.length + d ≤ Parse.maxDepth →
    4 * ts.length ≤ n → style ≠ .flow →
    (colon = true → style = .blockOrItems ∧ ts'.head? ≠ some .blockEntry) →
    ∃ nodes', Extends nodes nodes' ∧ Depicts nodes' nodes.size v ∧
      Parses false (Parse.node handles style n) (ts ++ ts') ts' nodes opened nodes.size nodes'
  | .items vs, ts => ∀ (d n : Nat) (loose : Bool) (nodes : Array Node) (opened : List Nat)
    (ts' : List Token), (∀ v ∈ vs, Storable d v) → opened.length + d ≤ Parse.maxDepth →
    4 * ts.length ≤ n + 2 → (loose = true → ts'.head? ≠ some .blockEntry) →
    ∃ ids nodes', Extends nodes nodes' ∧ (∀ i ∈ ids, nodes.size ≤ i) ∧
      List.Forall₂ (Depicts nodes') ids vs ∧
      Parses false (Parse.items loose handles n) (ts ++ closing loose ts') ts' nodes opened ids
        nodes'
  | .entry k v, ts => ∀ (d n : Nat) (nodes : Array Node) (opened : List Nat) (ts' : List Token),
    Storable d k → Storable d v → opened.length + d ≤ Parse.maxDepth → 4 * ts.length ≤ n + 3 →
    ts'.head? ≠ some .blockEntry →
    ∃ i j nodes', Extends nodes nodes' ∧ nodes.size ≤ i ∧ nodes.size ≤ j ∧ Depicts nodes' i k ∧
      Depicts nodes' j v ∧ ∀ pairs nodes'' ts'',
        Parses false (Parse.blockEntries handles n) ts' ts'' nodes' opened pairs nodes'' →
        Parses false (Parse.blockEntries handles (n + 1)) (ts ++ ts') ts'' nodes opened
          ((i, j) :: pairs) nodes''
  | .entries es, ts => ∀ (d n : Nat) (nodes : Array Node) (opened : List Nat) (ts' : List Token),
    (∀ e ∈ es, Storable d e.1 ∧ Storable d e.2) → opened.length + d ≤ Parse.maxDepth →
    4 * ts.length ≤ n + 2 →
    ∃ pairs nodes', Extends nodes nodes' ∧ (∀ i ∈ pairs, nodes.size ≤ i.1 ∧ nodes.size ≤ i.2) ∧
      List.Forall₂ (fun i e => Depicts nodes' i.1 e.1 ∧ Depicts nodes' i.2 e.2) pairs es ∧
      Parses false (Parse.blockEntries handles n) (ts ++ .blockEnd :: ts') ts' nodes opened pairs
        nodes'

variable {c : Nat} {piece : Piece} {out : List Char}

theorem parsed_atom {colon plain : Bool} {text : List Char} (hm : Means text plain v) :
    (Piece.value colon v).Parsed handles [.scalar (String.ofList text) plain] := by
  intro d n style nodes opened ts' _ _ hn _ _
  obtain ⟨n, rfl⟩ : ∃ m, n = m + 2 := ⟨n - 2, by simp at hn; omega⟩
  refine ⟨_, .push _, .atom (by simp) hm, parses_node ?_ (parses_scalar _ _)⟩
  rintro _ ⟨⟩
  rfl

theorem Depicts.set {i : Nat} {node : Node} (h : Depicts nodes i v) (hi : id < i) :
    Depicts (nodes.set! id node) i v := by
  refine h.mono fun j hj _ => ?_
  rw [Array.set!_eq_setIfInBounds, Array.getElem?_setIfInBounds_ne (by omega)]

theorem Extends.close {start node : Node} (h : Extends (nodes.push start) nodes') :
    Extends nodes (nodes'.set! nodes.size node) ∧
      (nodes'.set! nodes.size node)[nodes.size]? = some node := by
  have hsize := h.size_le
  rw [Array.size_push] at hsize
  refine ⟨⟨by simp; omega, fun j hj => ?_⟩, ?_⟩
  · rw [Array.set!_eq_setIfInBounds, Array.getElem?_setIfInBounds_ne (by omega),
      h.same j (by simp; omega)]
    exact (Extends.push start).same j hj
  · rw [Array.set!_eq_setIfInBounds, Array.getElem?_setIfInBounds_self_of_lt (by omega)]

theorem depicts_list {start : Node} {ids : List Nat} {vs : List Value}
    (h : Extends (nodes.push start) nodes') (hids : ∀ i ∈ ids, (nodes.push start).size ≤ i)
    (hvs : List.Forall₂ (Depicts nodes') ids vs) :
    Depicts (nodes'.set! nodes.size (.sequence (coreTag "seq") ids)) nodes.size (.list vs) := by
  have hlt : ∀ i ∈ ids, nodes.size < i := by
    intro i hi
    have hle := hids i hi
    rw [Array.size_push] at hle
    omega
  refine .list h.close.2 hlt hvs.length_eq fun i v hm => ?_
  exact ((List.forall₂_iff_zip.mp hvs).2 hm).set (hlt i (List.of_mem_zip hm).1)

theorem depicts_map {start : Node} {pairs : List (Nat × Nat)} {es : List (Value × Value)}
    (h : Extends (nodes.push start) nodes') (hkeyed : Keyed es)
    (hids : ∀ i ∈ pairs, (nodes.push start).size ≤ i.1 ∧ (nodes.push start).size ≤ i.2)
    (hes : List.Forall₂ (fun i e => Depicts nodes' i.1 e.1 ∧ Depicts nodes' i.2 e.2) pairs es) :
    Depicts (nodes'.set! nodes.size (.mapping (coreTag "map") pairs)) nodes.size (.map es) := by
  have hlt : ∀ i ∈ pairs, nodes.size < i.1 ∧ nodes.size < i.2 := by
    intro i hi
    have hle := hids i hi
    rw [Array.size_push] at hle
    omega
  obtain ⟨hlen, hparts⟩ := List.forall₂_iff_zip.mp hes
  refine .map h.close.2 hlt hkeyed hlen (fun i e hm => ?_) fun i e hm => ?_
  · exact (hparts hm).1.set (hlt i (List.of_mem_zip hm).1).1
  · exact (hparts hm).2.set (hlt i (List.of_mem_zip hm).1).2

theorem parsed_map {colon : Bool} {es : List (Value × Value)} (hkeyed : Keyed es)
    (h : (Piece.entries es).Parsed handles ts) :
    (Piece.value colon (.map es)).Parsed handles (.blockMappingStart :: (ts ++ [.blockEnd])) := by
  intro d n style nodes opened ts' hst hd hn hstyle _
  cases hst with
  | @map d _ _ hes =>
    simp only [List.length_cons, List.length_append] at hn
    obtain ⟨n, rfl⟩ : ∃ m, n = m + 2 := ⟨n - 2, by omega⟩
    have hparts : ∀ e ∈ es, Storable d e.1 ∧ Storable d e.2 := by
      intro e he
      obtain ⟨s, hs, hv⟩ := hkeyed.texts e he
      exact ⟨hs ▸ .text hv, hes e he⟩
    obtain ⟨pairs, nodes', hext, hids, hdepicts, hparses⟩ := h d n
      (nodes.push (.mapping (coreTag "map") [])) (nodes.size :: opened) ts' hparts
      (by simp; omega) (by omega)
    refine ⟨_, hext.close.1, depicts_map hext hkeyed hids hdepicts, parses_node ?_ ?_⟩
    · rintro _ ⟨⟩
      rfl
    · rw [List.cons_append, List.append_assoc]
      exact parses_block .entries (by omega) hstyle hparses

/-- A key and its value are read one after the other, whichever way the key is written. -/
theorem parsed_entry {colon : Bool} {k : Value} {ts₁ : List Token}
    (hmark : ∀ ts', (ts ++ ts').head?.any ([.key, .value, .blockEnd].contains ·) = false)
    (hmark₁ : ∀ ts', (ts₁ ++ ts').head?.any ([.key, .value, .blockEnd].contains ·) = false)
    (hkey : (Piece.value false k).Parsed handles ts)
    (hvalue : (Piece.value colon v).Parsed handles ts₁) :
    (Piece.entry k v).Parsed handles (.key :: (ts ++ .value :: ts₁)) := by
  intro d n nodes opened ts' hk hv hd hn hnext
  simp only [List.length_cons, List.length_append] at hn
  obtain ⟨nodes₁, hext, hdepicts, hparses⟩ := hkey d n .blockOrItems nodes opened
    (.value :: (ts₁ ++ ts')) hk hd (by omega) (by simp) (by simp)
  obtain ⟨nodes', hext', hdepicts', hparses'⟩ := hvalue d n .blockOrItems nodes₁ opened ts' hv hd
    (by omega) (by simp) fun _ => ⟨rfl, hnext⟩
  refine ⟨nodes.size, nodes₁.size, nodes', hext.trans hext', Nat.le_refl _, hext.size_le,
    hext'.depicts hdepicts, hdepicts', fun pairs nodes'' ts'' hrest => ?_⟩
  rw [List.cons_append, List.append_assoc, List.cons_append]
  exact parses_nextEntry (hmark _) (hmark₁ _) hparses hparses' hrest

/-- Whatever is laid out is read as a node that stands for it. -/
theorem Laid.parsed (h : Laid c piece out ts) : piece.Parsed handles ts := by
  -- The fuel is counted in tokens: four steps for each of them are enough.
  induction h with
  | atom _ hm => exact parsed_atom handles hm
  | noItems =>
    intro d n style nodes opened ts' hst hd hn _ _
    cases hst
    obtain ⟨n, rfl⟩ : ∃ m, n = m + 3 := ⟨n - 3, by simp at hn; omega⟩
    refine ⟨_, (Extends.close (.refl _)).1, depicts_list (.refl _) (by simp) .nil,
      parses_node ?_ (parses_brackets .items (by omega))⟩
    rintro _ ⟨⟩
    rfl
  | noEntries =>
    intro d n style nodes opened ts' hst hd hn _ _
    cases hst with
    | map hkeyed =>
    obtain ⟨n, rfl⟩ : ∃ m, n = m + 3 := ⟨n - 3, by simp at hn; omega⟩
    refine ⟨_, (Extends.close (.refl _)).1, depicts_map (.refl _) hkeyed (by simp) .nil,
      parses_node ?_ (parses_brackets .entries (by omega))⟩
    rintro _ ⟨⟩
    rfl
  | @loose c vs out ts h ih =>
    intro d n style nodes opened ts' hst hd hn _ hloose
    obtain ⟨rfl, hnext⟩ := hloose rfl
    obtain ⟨ts, rfl⟩ := h.heads
    cases hst with
    | @list d _ hvs =>
      rw [List.length_cons] at hn
      obtain ⟨n, rfl⟩ : ∃ m, n = m + 2 := ⟨n - 2, by omega⟩
      obtain ⟨ids, nodes', hext, hids, hdepicts, hparses⟩ := ih d n true
        (nodes.push (.sequence (coreTag "seq") [])) (nodes.size :: opened) ts' hvs
        (by simp; omega) (by simp; omega) fun _ => hnext
      refine ⟨_, hext.close.1, depicts_list hext hids hdepicts, parses_node ?_ ?_⟩
      · rintro _ ⟨⟩
        rfl
      · exact parses_looseItems (by omega) hparses
  | @list c vs out ts h ih =>
    intro d n style nodes opened ts' hst hd hn hstyle _
    cases hst with
    | @list d _ hvs =>
      simp only [List.length_cons, List.length_append] at hn
      obtain ⟨n, rfl⟩ : ∃ m, n = m + 2 := ⟨n - 2, by omega⟩
      obtain ⟨ids, nodes', hext, hids, hdepicts, hparses⟩ := ih d n false
        (nodes.push (.sequence (coreTag "seq") [])) (nodes.size :: opened) ts' hvs
        (by simp; omega) (by omega) (by simp)
      refine ⟨_, hext.close.1, depicts_list hext hids hdepicts, parses_node ?_ ?_⟩
      · rintro _ ⟨⟩
        rfl
      · have hitems : ts ++ [Token.blockEnd] ++ ts' = ts ++ closing false ts' := by simp [closing]
        rw [List.cons_append, hitems]
        exact parses_block .items (by omega) hstyle hparses
  | map hkeyed _ ih => exact parsed_map handles hkeyed ih
  | @lastItem c v out ts h ih =>
    intro d n loose nodes opened ts' hst hd hn hnext
    rw [List.length_cons] at hn
    obtain ⟨n, rfl⟩ : ∃ m, n = m + 2 := ⟨n - 2, by omega⟩
    obtain ⟨nodes', hext, hdepicts, hparses⟩ := ih d (n + 1) .block nodes opened (closing loose ts')
      (hst v List.mem_cons_self) hd (by omega) (by simp) (by simp)
    refine ⟨[nodes.size], nodes', hext, by simp, .cons hdepicts .nil, ?_⟩
    exact parses_nextItem (h.notMark _) hparses (parses_lastItem hnext)
  | @item c v vs out out' ts ts₁ h h' ih ih' =>
    intro d n loose nodes opened ts' hst hd hn hnext
    simp only [List.length_cons, List.length_append] at hn
    obtain ⟨n, rfl⟩ : ∃ m, n = m + 1 := ⟨n - 1, by omega⟩
    obtain ⟨nodes₁, hext, hdepicts, hparses⟩ := ih d n .block nodes opened
      (ts₁ ++ closing loose ts') (hst v List.mem_cons_self) hd (by omega) (by simp) (by simp)
    obtain ⟨ids, nodes', hext', hids, hdepicts', hparses'⟩ := ih' d n loose nodes₁ opened ts'
      (fun w hw => hst w (List.mem_cons_of_mem v hw)) hd (by omega) hnext
    refine ⟨nodes.size :: ids, nodes', hext.trans hext', ?_,
      .cons (hext'.depicts hdepicts) hdepicts', ?_⟩
    · intro i hi
      rcases List.mem_cons.mp hi with rfl | hi
      · exact Nat.le_refl _
      · exact hext.size_le.trans (hids i hi)
    · rw [List.cons_append, List.append_assoc]
      exact parses_nextItem (h.notMark _) hparses hparses'
  | simpleKey _ hm _ _ h ih =>
    exact parsed_entry handles (fun _ => rfl) h.notEntryMark (parsed_atom handles hm) ih
  | longKey h h' ih ih' => exact parsed_entry handles h.notEntryMark h'.notEntryMark ih ih'
  | @lastEntry c k v out ts h ih =>
    intro d n nodes opened ts' hst hd hn
    obtain ⟨ts, rfl⟩ := h.heads
    rw [List.length_cons] at hn
    obtain ⟨n, rfl⟩ : ∃ m, n = m + 2 := ⟨n - 2, by omega⟩
    obtain ⟨hk, hv⟩ := hst _ List.mem_cons_self
    obtain ⟨i, j, nodes', hext, hi, hj, hdk, hdv, hparses⟩ := ih d (n + 1) nodes opened
      (.blockEnd :: ts') hk hv hd (by simp; omega) (by simp)
    exact ⟨[(i, j)], nodes', hext, by simp [hi, hj], .cons ⟨hdk, hdv⟩ .nil,
      hparses [] nodes' ts' parses_lastEntry⟩
  | @entry c k v es out out' ts ts₁ h h' ih ih' =>
    intro d n nodes opened ts' hst hd hn
    obtain ⟨ts, rfl⟩ := h.heads
    obtain ⟨ts₁, rfl⟩ := h'.heads
    simp only [List.length_cons, List.length_append] at hn
    obtain ⟨n, rfl⟩ : ∃ m, n = m + 1 := ⟨n - 1, by omega⟩
    obtain ⟨hk, hv⟩ := hst _ List.mem_cons_self
    obtain ⟨i, j, nodes₁, hext, hi, hj, hdk, hdv, hparses⟩ := ih d n nodes opened
      (.key :: ts₁ ++ .blockEnd :: ts') hk hv hd (by simp; omega) (by simp)
    obtain ⟨pairs, nodes', hext', hids, hdepicts, hparses'⟩ := ih' d n nodes₁ opened ts'
      (fun e he => hst e (List.mem_cons_of_mem _ he)) hd (by simp; omega)
    refine ⟨(i, j) :: pairs, nodes', hext.trans hext', ?_,
      .cons ⟨hext'.depicts hdk, hext'.depicts hdv⟩ hdepicts, ?_⟩
    · intro p hp
      rcases List.mem_cons.mp hp with rfl | hp
      · exact ⟨hi, hj⟩
      · exact ⟨hext.size_le.trans (hids p hp).1, hext.size_le.trans (hids p hp).2⟩
    · rw [List.append_assoc]
      exact hparses pairs nodes' ts' hparses'

end Graphs

section Documents

variable {c hang : Nat} {piece : Piece} {out : List Char}

/-- Visible characters and the ends of lines. -/
def Legible (out : List Char) : Prop :=
  ∀ d ∈ out, IsVisible d ∨ d = '\n'

theorem legible_nil : Legible [] := by simp [Legible]

theorem legible_cons {d : Char} : Legible (d :: out) ↔ (IsVisible d ∨ d = '\n') ∧ Legible out :=
  List.forall_mem_cons

theorem legible_append {out' : List Char} : Legible (out ++ out') ↔ Legible out ∧ Legible out' :=
  List.forall_mem_append

theorem legible_spaces (n : Nat) : Legible (spaces n) :=
  fun _ hd => .inl (visible_of_mem_spaces hd)

theorem legible_visible {text : List Char} (h : ∀ d ∈ text, IsVisible d) : Legible text :=
  fun d hd => .inl (h d hd)

theorem Wrapped.legible {put : List Char → List Char} {rs : List (RunKind × List Char)}
    (h : Wrapped hang put rs out) (hput : ∀ run, ∀ d ∈ put run, d ∈ run)
    (hv : ∀ r ∈ rs, ∀ d ∈ r.2, IsVisible d) : Legible out := by
  induction h with
  | nil => exact legible_nil
  | @word run out rest _ ih =>
    rw [List.forall_mem_cons] at hv
    exact legible_append.mpr ⟨legible_visible fun d hd => hv.1 d (hput run d hd), ih hv.2⟩
  | @space run out rest _ ih =>
    rw [List.forall_mem_cons] at hv
    exact legible_append.mpr ⟨legible_visible hv.1, ih hv.2⟩
  | @fold out rest _ _ ih =>
    rw [List.forall_mem_cons] at hv
    exact legible_cons.mpr ⟨.inr rfl, legible_append.mpr ⟨legible_spaces hang, ih hv.2⟩⟩

theorem Phrase.visible {rs : List (RunKind × List Char)} (h : Phrase rs) :
    ∀ r ∈ rs, ∀ d ∈ r.2, IsVisible d := by
  induction h with
  | last hw => simpa using hw.visible
  | more hw _ hs _ ih =>
    simp only [List.forall_mem_cons]
    refine ⟨hw.visible, fun d hd => ?_, ih⟩
    rw [hs d hd]
    decide

theorem Inscribed.legible {text : List Char} {plain : Bool} (h : Inscribed hang text plain out) :
    Legible out := by
  cases h with
  | plain hp hwrap => exact hwrap.legible (by simp) hp.phrase.visible
  | @single out hv hwrap =>
    have hbody : Legible out := by
      refine hwrap.legible (fun run d hd => ?_) (visible_runs hv)
      obtain ⟨e, he, hd⟩ := List.mem_flatMap.mp hd
      split at hd
      next heq => simp_all
      next => exact List.mem_singleton.mp hd ▸ he
    have hquote : IsVisible '\'' := by decide
    simp [legible_cons, legible_append, legible_nil, hbody, hquote]

theorem Laid.legible (h : Laid c piece out ts) : Legible out := by
  have hmarks : ∀ d ∈ [' ', '-', '?', ':', '[', ']', '\x7b', '\x7d'], IsVisible d :=
    List.forall_iff_forall_mem.mp (by decide)
  induction h with
  | atom hins => exact legible_cons.mpr ⟨.inl (by decide), hins.legible⟩
  | noItems | noEntries => exact legible_visible (List.forall_iff_forall_mem.mp (by decide))
  | loose _ ih | list _ ih => simp [inset, legible_cons, legible_append, legible_spaces, ih, hmarks]
  | @map _ colon _ _ _ _ _ ih =>
    cases colon <;> simp [inset, legible_cons, legible_append, legible_spaces, ih, hmarks]
  | lastItem _ ih => simp [legible_cons, ih, hmarks]
  | item _ _ ih ih' => simp [legible_cons, legible_append, legible_spaces, ih, ih', hmarks]
  | simpleKey hins _ _ _ _ ih => simp [legible_cons, legible_append, hins.legible, ih, hmarks]
  | longKey _ _ ih ih' => simp [legible_cons, legible_append, legible_spaces, ih, ih', hmarks]
  | lastEntry _ ih => exact ih
  | entry _ _ ih ih' => simp [legible_cons, legible_append, legible_spaces, ih, ih']

/-- A document has not many more tokens than characters. -/
theorem Laid.length_le (h : Laid c piece out ts) : ts.length ≤ 2 * out.length := by
  induction h with
  | simpleKey hins _ _ _ _ ih =>
    have hpos := hins.length_pos
    simp only [List.length_cons, List.length_append]
    omega
  | atom => simp only [List.length_cons, List.length_nil]; omega
  | noItems | noEntries => decide
  | lastEntry _ ih => exact ih
  | @map _ colon _ _ _ _ _ ih =>
    cases colon <;>
    · simp only [inset, List.length_cons, List.length_append, List.length_nil, if_true,
        Bool.false_eq_true, if_false]
      omega
  | loose _ ih | list _ ih | lastItem _ ih =>
    simp only [inset, List.length_cons, List.length_append, List.length_nil, if_true,
      Bool.false_eq_true, if_false]
    omega
  | item _ _ ih ih' | longKey _ _ ih ih' | entry _ _ ih ih' =>
    simp only [List.length_cons, List.length_append]
    omega

theorem Legible.allowed (h : Legible out) : out.all isAllowed = true := by
  refine List.all_eq_true.mpr fun d hd => ?_
  rcases h d hd with ⟨hlow, hhigh⟩ | rfl
  · have hlow' : 0x20 ≤ d.toNat := hlow
    have hhigh' : d.toNat ≤ 0x7E := hhigh
    simp [isAllowed, hlow', hhigh']
  · decide

theorem startScan_legible (h : Legible out) : startScan out = .ok { input := ⟨out, 0, 0, 0⟩ } := by
  have hmark : (Input.mk out 0 0 0).peek ≠ '\ufeff' := by
    cases out with
    | nil => decide
    | cons d out =>
      rcases h d List.mem_cons_self with ⟨_, hhigh⟩ | rfl
      · rintro rfl
        exact absurd hhigh (by decide)
      · exact show '\n' ≠ '\ufeff' by decide
  rw [startScan]
  simp only [h.allowed, Bool.not_true, Bool.false_eq_true, if_false, hmark]
  rfl

variable {es : List (Value × Value)} {d : Nat}

/-- A document that is one block. -/
theorem run_document {scan : ScanState} (hs : Streams scan (.blockMappingStart :: ts))
    (h : Parses false (Parse.node Parse.defaultHandles .block (16 * scan.input.rest.length + 64))
      (.blockMappingStart :: ts) [] nodes [] id nodes') :
    ∃ scan', Parse.document.run (reading scan nodes []) =
      .ok (some id, reading scan' nodes' []) := by
  have hrun : ∀ m : Parse (Option Nat), Parses false m (.blockMappingStart :: ts) [] nodes []
      (some id) nodes' →
      ∃ scan', m.run (reading scan nodes []) = .ok (some id, reading scan' nodes' []) := by
    intro m hm
    obtain ⟨scan', _, heq⟩ := hm scan hs
    exact ⟨scan', heq⟩
  rw [Parse.document, run_get_bind]
  refine hrun _ (parses_peek_bind ((h.weaken true).bind ?_))
  have hends : Parses false (Parse.skipDocumentEnds (16 * scan.input.rest.length + 64)) [] []
      nodes' [] () nodes' := by
    rw [Parse.skipDocumentEnds]
    exact (parses_accept_not (by simp)).bind (parses_pure ())
  exact hends.bind (parses_peek_bind (parses_pure _))

/-- A map that is laid out is the one node of its document. -/
theorem Laid.parse_eq (h : Laid 0 (.entries es) out ts) (hst : Storable (d + 1) (.map es))
    (hd : d < Parse.maxDepth) :
    ∃ graph, parse (out ++ ['\n']) = .ok (some graph) ∧ graph.looped = false ∧
      Depicts graph.nodes graph.root (.map es) := by
  have hlegible : Legible (out ++ ['\n']) :=
    legible_append.mpr ⟨h.legible, legible_cons.mpr ⟨.inr rfl, legible_nil⟩⟩
  have hkeyed : Keyed es := by
    cases hst with
    | map hkeyed => exact hkeyed
  have hlen := h.length_le
  obtain ⟨nodes, _, hdepicts, hparses⟩ := @parsed_map ts Parse.defaultHandles false es
    hkeyed (h.parsed _) (d + 1) (16 * (out ++ ['\n']).length + 64) .block #[] [] [] hst
    (by simpa using hd) (by simp; omega) (by simp) (by simp)
  rw [List.append_nil] at hparses
  obtain ⟨scan, hdocument⟩ := run_document h.streams hparses
  refine ⟨⟨nodes, 0, false⟩, ?_, rfl, hdepicts⟩
  rw [parse, startScan_legible hlegible]
  have hrun : Parse.document.run { scan := { input := ⟨out ++ ['\n'], 0, 0, 0⟩ } } =
      .ok (some 0, reading scan nodes []) := hdocument
  simp only [bind, Except.bind, hrun]
  rfl

end Documents

end Yaml

end NPlusOne
