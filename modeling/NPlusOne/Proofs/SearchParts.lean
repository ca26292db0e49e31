import NPlusOne.Proofs.QueryReach

namespace NPlusOne

namespace Errand

variable {ρ : Type} (s : LoopSearch ρ) (holds : ρ → Prop) (met : Cursor → Prop)

/-- The query uses that an errand may come upon in its own body. -/
def Uses : Errand → Prop
  | loop c => s.Uses c
  | walk root _ stack _ => ∃ x ∈ stack, s.Uses ⟨root.unit, x⟩
  | _ => False

/-- The functions that an errand asks about. -/
def Calls : Errand → Cursor → Prop
  | loop c, d => s.Calls holds c d
  | check c _, d => d = c
  | walk root _ stack _, d => ∃ x ∈ stack, ∃ n, x.Contains n ∧ n.kind = .call ∧
      s.Expands holds (some root.file) ⟨root.unit, n⟩ d
  | visit file c, d => c.node.kind = .call ∧ s.Expands holds (some file) c d
  | checkAll _ definitions _, d => d ∈ definitions

/-- The failures that can stop an errand while no function is entered. -/
def Fails : Errand → Failure → Prop
  | loop c, e => s.Fails holds c e
  | check d _, e => DeclarationId.of d.node = .error e
  | walk root _ stack _, e => ∃ x ∈ stack, ∃ n, x.Contains n ∧ (n.children = .error e ∨
      n.kind = .call ∧ s.Raises holds (some root.file) ⟨root.unit, n⟩ e)
  | visit file c, e => c.node.kind = .call ∧ s.Raises holds (some file) c e
  | checkAll _ definitions _, e => ∃ d ∈ definitions, DeclarationId.of d.node = .error e

def Reaches (errand : Errand) : Prop :=
  errand.Uses s ∨ ∃ d, errand.Calls s holds d ∧ s.Reaches holds d

/-- All functions that the errand may come to are among those met. -/
def Within (errand : Errand) : Prop :=
  ∀ d e, errand.Calls s holds d → s.Leads holds d e → met e

/-- The answer before the errand is run. -/
def found : Errand → Bool
  | walk _ _ _ found => found
  | checkAll _ _ found => found
  | _ => false

/-- The function whose body is walked. -/
def owner : Errand → Option DeclarationId
  | walk root _ _ _ => root.function
  | _ => none

/-- A loop is walked only where it lies in a file. -/
def Located : Errand → Prop
  | loop c => c.node.file?.isSome = true
  | _ => True

/-- What the first errand looks at, the second does as well. -/
structure Part (a b : Errand) : Prop where
  uses : a.Uses s → b.Uses s
  calls : ∀ d, a.Calls s holds d → b.Calls s holds d
  fails : ∀ e, a.Fails s holds e → b.Fails s holds e

variable {s holds met}

theorem Part.reaches {a b : Errand} (h : Part s holds a b) (ha : a.Reaches s holds) :
    b.Reaches s holds := by
  rcases ha with hu | ⟨d, hd, hr⟩
  · exact .inl (h.uses hu)
  · exact .inr ⟨d, h.calls d hd, hr⟩

/-- An errand in two parts, of which the second goes on with the answer of the first. -/
theorem found_or_reaches {a b c : Errand} {reached : Bool} (ha : Part s holds a b)
    (hc : Part s holds c b) (hfound : a.found = false)
    (hfirst : reached = true → a.found = true ∨ a.Reaches s holds)
    (hsecond : (b.found || reached) = true ∨ c.Reaches s holds) :
    b.found = true ∨ b.Reaches s holds := by
  rcases hsecond with hsecond | hreach
  · rcases (Bool.or_eq_true b.found reached).mp hsecond with hb | hreached
    · exact .inl hb
    · rcases hfirst hreached with hfalse | hreach
      · cases hfound.symm.trans hfalse
      · exact .inr (ha.reaches hreach)
  · exact .inr (hc.reaches hreach)

theorem Part.within {a b : Errand} (h : Part s holds a b) (hb : b.Within s holds met) :
    a.Within s holds met :=
  fun d e hd he => hb d e (h.calls d hd) he

theorem reaches_check {d : Cursor} {call : Option Node} :
    (check d call).Reaches s holds ↔ s.Reaches holds d := by
  simp [Reaches, Uses, Calls]

theorem reaches_visit {file : String} {c : Cursor} :
    (visit file c).Reaches s holds ↔
      ∃ d, (visit file c).Calls s holds d ∧ s.Reaches holds d := by
  simp [Reaches, Uses]

theorem calls_function {d e : Cursor} {call : Option Node} {id : DeclarationId} {body : Node}
    {b : Bool} (h : DeclarationId.of d.node = .ok id) :
    (walk (LoopSearch.functionRoot d call id) body [d.node] b).Calls s holds e ↔
      s.Calls holds d e := by
  simp [Calls, LoopSearch.Calls, DeclarationId.file_of h]

theorem calls_loop {c d : Cursor} {file : String} {body : Node} {b : Bool}
    (h : c.node.file? = some file) :
    (walk (LoopSearch.loopRoot c file) body [c.node] b).Calls s holds d ↔ s.Calls holds c d := by
  simp [Calls, LoopSearch.Calls, h]

theorem reaches_loop {c : Cursor} {file : String} {body : Node} {b : Bool}
    (h : c.node.file? = some file) :
    (walk (LoopSearch.loopRoot c file) body [c.node] b).Reaches s holds ↔ s.Reaches holds c := by
  rw [LoopSearch.reaches_iff]
  simp [Reaches, Uses, calls_loop h]

theorem reaches_function {d : Cursor} {call : Option Node} {id : DeclarationId} {body : Node}
    {b : Bool} (h : DeclarationId.of d.node = .ok id) :
    (walk (LoopSearch.functionRoot d call id) body [d.node] b).Reaches s holds ↔
      s.Reaches holds d := by
  rw [LoopSearch.reaches_iff]
  simp [Reaches, Uses, calls_function h]

theorem fails_function {d : Cursor} {call : Option Node} {id : DeclarationId} {body : Node}
    {b : Bool} {e : Failure} (h : DeclarationId.of d.node = .ok id) :
    (walk (LoopSearch.functionRoot d call id) body [d.node] b).Fails s holds e ↔
      s.Fails holds d e := by
  simp [Fails, LoopSearch.Fails, DeclarationId.file_of h]

theorem Within.function {d : Cursor} {call : Option Node} {id : DeclarationId} {body : Node}
    {b : Bool} (h : (check d call).Within s holds met) (hid : DeclarationId.of d.node = .ok id) :
    (walk (LoopSearch.functionRoot d call id) body [d.node] b).Within s holds met :=
  fun _ f he hf => h d f rfl (.head ((calls_function hid).mp he) hf)

theorem part_loop {c : Cursor} {file : String} {body : Node} {b : Bool}
    (h : c.node.file? = some file) :
    Part s holds (walk (LoopSearch.loopRoot c file) body [c.node] b) (loop c) where
  uses hu := by simpa [Uses] using hu
  calls _ hd := (calls_loop h).mp hd
  fails e he := by simpa [Fails, LoopSearch.Fails, h] using he

theorem part_tail {root : WalkRoot} {body x : Node} {rest : List Node} {b b' : Bool} :
    Part s holds (walk root body rest b') (walk root body (x :: rest) b) where
  uses := fun ⟨y, hy, hu⟩ => ⟨y, List.mem_cons_of_mem x hy, hu⟩
  calls := fun _ ⟨y, hy, hd⟩ => ⟨y, List.mem_cons_of_mem x hy, hd⟩
  fails := fun _ ⟨y, hy, he⟩ => ⟨y, List.mem_cons_of_mem x hy, he⟩

theorem part_head {root : WalkRoot} {body x : Node} {rest : List Node} {b : Bool} :
    Part s holds (visit root.file ⟨root.unit, x⟩) (walk root body (x :: rest) b) where
  uses := False.elim
  calls := fun _ hd => ⟨x, List.mem_cons_self, x, .self x, hd⟩
  fails := fun _ he => ⟨x, List.mem_cons_self, x, .self x, .inr he⟩

theorem part_children {root : WalkRoot} {body x : Node} {xs rest : List Node} {b b' : Bool}
    (h : x.children = .ok xs) :
    Part s holds (walk root body (xs ++ rest) b') (walk root body (x :: rest) b) where
  uses := by
    rintro ⟨y, hy, n, hn, hu⟩
    rcases List.mem_append.mp hy with hy | hy
    · exact ⟨x, List.mem_cons_self, n, .under h hy hn, hu⟩
    · exact ⟨y, List.mem_cons_of_mem x hy, n, hn, hu⟩
  calls := by
    rintro d ⟨y, hy, n, hn, hd⟩
    rcases List.mem_append.mp hy with hy | hy
    · exact ⟨x, List.mem_cons_self, n, .under h hy hn, hd⟩
    · exact ⟨y, List.mem_cons_of_mem x hy, n, hn, hd⟩
  fails := by
    rintro e ⟨y, hy, n, hn, he⟩
    rcases List.mem_append.mp hy with hy | hy
    · exact ⟨x, List.mem_cons_self, n, .under h hy hn, he⟩
    · exact ⟨y, List.mem_cons_of_mem x hy, n, hn, he⟩

theorem part_here {file : String} {c callee d : Cursor} {call : Option Node}
    (hc : c.node.kind = .call) (hs : c.simpleCallee = .ok (some callee))
    (hd : LoopSearch.definitionHere file callee = some d) :
    Part s holds (check d call) (visit file c) where
  uses := False.elim
  calls := by
    rintro _ rfl
    exact ⟨hc, .here hs hd⟩
  fails := fun _ he => ⟨hc, .unlocated (.here hs hd) he⟩

theorem part_elsewhere {file : String} {c callee : Cursor} {ds : List Cursor} {call : Node}
    {b : Bool} (hc : c.node.kind = .call) (hs : c.simpleCallee = .ok (some callee))
    (hd : LoopSearch.definitionHere file callee = none)
    (hsay : s.Says holds callee (.ok (some ds))) :
    Part s holds (checkAll call ds b) (visit file c) where
  uses := False.elim
  calls := fun _ hmem => ⟨hc, .elsewhere hs hd hsay hmem⟩
  fails := fun _ ⟨_, hmem, he⟩ => ⟨hc, .unlocated (.elsewhere hs hd hsay hmem) he⟩

theorem part_first {call : Node} {d : Cursor} {ds : List Cursor} {b : Bool} :
    Part s holds (check d (some call)) (checkAll call (d :: ds) b) where
  uses := False.elim
  calls := by
    rintro _ rfl
    exact List.mem_cons_self
  fails := fun _ he => ⟨d, List.mem_cons_self, he⟩

theorem part_rest {call : Node} {d : Cursor} {ds : List Cursor} {b b' : Bool} :
    Part s holds (checkAll call ds b') (checkAll call (d :: ds) b) where
  uses := False.elim
  calls := fun _ hmem => List.mem_cons_of_mem d hmem
  fails := fun _ ⟨c, hmem, he⟩ => ⟨c, List.mem_cons_of_mem d hmem, he⟩

theorem Uses.cons {root : WalkRoot} {body x : Node} {xs rest : List Node} {b b' : Bool}
    (hc : x.children = .ok xs) (hu : s.isQueryUse root.unit x = false)
    (h : (walk root body (x :: rest) b).Uses s) : (walk root body (xs ++ rest) b').Uses s := by
  obtain ⟨y, hy, n, hn, hq⟩ := h
  rcases List.mem_cons.mp hy with rfl | hy
  · rcases (Node.contains_iff hc).mp hn with rfl | ⟨c, hmem, hn⟩
    · simp [hu] at hq
    · exact ⟨c, List.mem_append_left _ hmem, n, hn, hq⟩
  · exact ⟨y, List.mem_append_right _ hy, n, hn, hq⟩

theorem Calls.cons {root : WalkRoot} {body x : Node} {xs rest : List Node} {b b' : Bool}
    {d : Cursor} (hc : x.children = .ok xs)
    (h : (walk root body (x :: rest) b).Calls s holds d) :
    (visit root.file ⟨root.unit, x⟩).Calls s holds d ∨
      (walk root body (xs ++ rest) b').Calls s holds d := by
  obtain ⟨y, hy, n, hn, hd⟩ := h
  rcases List.mem_cons.mp hy with rfl | hy
  · rcases (Node.contains_iff hc).mp hn with rfl | ⟨c, hmem, hn⟩
    · exact .inl hd
    · exact .inr ⟨c, List.mem_append_left _ hmem, n, hn, hd⟩
  · exact .inr ⟨y, List.mem_append_right _ hy, n, hn, hd⟩

theorem Reaches.cons {root : WalkRoot} {body x : Node} {xs rest : List Node} {b b' : Bool}
    (hc : x.children = .ok xs) (hu : s.isQueryUse root.unit x = false)
    (h : (walk root body (x :: rest) b).Reaches s holds) :
    (visit root.file ⟨root.unit, x⟩).Reaches s holds ∨
      (walk root body (xs ++ rest) b').Reaches s holds := by
  rcases h with huse | ⟨d, hd, hr⟩
  · exact .inr (.inl (huse.cons hc hu))
  · rcases hd.cons hc with hd | hd
    · exact .inl (.inr ⟨d, hd, hr⟩)
    · exact .inr (.inr ⟨d, hd, hr⟩)

theorem Reaches.definitions {call : Node} {d : Cursor} {ds : List Cursor} {b b' : Bool}
    (h : (checkAll call (d :: ds) b).Reaches s holds) :
    (check d (some call)).Reaches s holds ∨ (checkAll call ds b').Reaches s holds := by
  rcases h with huse | ⟨e, he, hr⟩
  · exact huse.elim
  · rcases List.mem_cons.mp he with rfl | he
    · exact .inl (.inr ⟨e, rfl, hr⟩)
    · exact .inr (.inr ⟨e, he, hr⟩)

theorem Calls.unnamed {file : String} {c d : Cursor} (hs : c.simpleCallee = .ok none)
    (h : (visit file c).Calls s holds d) : False := by
  obtain ⟨_, he⟩ := h
  cases he with
  | here hs' => cases hs.symm.trans hs'
  | elsewhere hs' => cases hs.symm.trans hs'

theorem Calls.here {file : String} {c callee d e : Cursor}
    (hs : c.simpleCallee = .ok (some callee)) (hd : LoopSearch.definitionHere file callee = some d)
    (h : (visit file c).Calls s holds e) : e = d := by
  obtain ⟨_, he⟩ := h
  cases he with
  | here hs' hd' =>
    cases hs.symm.trans hs'
    exact Option.some.inj (hd'.symm.trans hd)
  | elsewhere hs' hd' =>
    cases hs.symm.trans hs'
    cases hd'.symm.trans hd

theorem Calls.elsewhere {file : String} {c callee e : Cursor}
    (hs : c.simpleCallee = .ok (some callee)) (hd : LoopSearch.definitionHere file callee = none)
    (h : (visit file c).Calls s holds e) :
    ∃ ds, s.Says holds callee (.ok (some ds)) ∧ e ∈ ds := by
  obtain ⟨_, he⟩ := h
  cases he with
  | here hs' hd' =>
    cases hs.symm.trans hs'
    cases hd'.symm.trans hd
  | elsewhere hs' _ hsay hmem =>
    cases hs.symm.trans hs'
    exact ⟨_, hsay, hmem⟩

end Errand

end NPlusOne
