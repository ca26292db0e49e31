import NPlusOne.Proofs.SearchSound

namespace NPlusOne

namespace LoopSearch

variable {ρ : Type} (s : LoopSearch ρ) (holds : ρ → Prop)

/-- A walk that begins at the first node comes to the second: nothing above it is a query use. -/
inductive Comes (u : TranslationUnit) : Node → Node → Prop
  | self (n : Node) : Comes u n n
  | under {n c m : Node} {children : List Node} : s.isQueryUse u n = false →
    n.children = .ok children → c ∈ children → Comes u c m → Comes u n m

/-- A question to the resolver has one outcome, be it a failure, whatever was asked before. -/
structure Fixed [HasLog ρ] : Prop extends s.Keeps holds where
  agree : ∀ {callee answer answer'}, s.Says holds callee answer → s.Says holds callee answer' →
    answer = answer'

variable {s holds} {u : TranslationUnit}

theorem Comes.trans {a b c : Node} (h : s.Comes u a b) (h' : s.Comes u b c) : s.Comes u a c := by
  induction h with
  | self => exact h'
  | under hu hc hmem _ ih => exact .under hu hc hmem (ih h')

theorem comes_of_use {n m : Node} (hu : s.isQueryUse u n = true) : s.Comes u n m ↔ m = n := by
  constructor
  · intro h
    cases h with
    | self => rfl
    | under hno => simp [hu] at hno
  · rintro rfl
    exact .self m

theorem comes_of_children {n m : Node} {children : List Node} (hu : s.isQueryUse u n = false)
    (hc : n.children = .ok children) :
    s.Comes u n m ↔ m = n ∨ ∃ c ∈ children, s.Comes u c m := by
  constructor
  · intro h
    cases h with
    | self => exact .inl rfl
    | under _ hc' hmem h =>
      cases hc.symm.trans hc'
      exact .inr ⟨_, hmem, h⟩
  · rintro (rfl | ⟨c, hmem, h⟩)
    · exact .self m
    · exact .under hu hc hmem h

/-- A walk that has the nodes of the stack before it comes to the node. -/
def Meets (s : LoopSearch ρ) (u : TranslationUnit) (stack : List Node) (n : Node) : Prop :=
  ∃ x ∈ stack, s.Comes u x n

theorem meets_of_use {x n : Node} {rest : List Node} (hu : s.isQueryUse u x = true) :
    s.Meets u (x :: rest) n ↔ n = x ∨ s.Meets u rest n := by
  simp [Meets, comes_of_use hu]

theorem meets_of_children {x n : Node} {xs rest : List Node} (hu : s.isQueryUse u x = false)
    (hc : x.children = .ok xs) : s.Meets u (x :: rest) n ↔ n = x ∨ s.Meets u (xs ++ rest) n := by
  simp [Meets, comes_of_children hu hc, or_and_right, exists_or, or_assoc]

theorem kind_of_use {n : Node} (hu : s.isQueryUse u n = true) : n.kind ≠ .call := by
  intro hk
  simp [isQueryUse, hk, NodeKind.isIdentifier] at hu

end LoopSearch

namespace Errand

variable {ρ : Type} (s : LoopSearch ρ) (holds : ρ → Prop)

/-- The errand itself comes upon a query use. -/
def Sees : Errand → Prop
  | loop c => c.node.file?.isSome = true ∧
      ∃ n, s.Comes c.unit c.node n ∧ s.isQueryUse c.unit n = true
  | walk root _ stack _ => ∃ n, s.Meets root.unit stack n ∧ s.isQueryUse root.unit n = true
  | _ => False

/-- The functions that an errand asks about if it is carried out to its end. -/
def Asks : Errand → Cursor → Prop
  | loop c, d => ∃ file, c.node.file? = some file ∧
      ∃ n, s.Comes c.unit c.node n ∧ (visit file ⟨c.unit, n⟩).Calls s holds d
  | walk root _ stack _, d =>
      ∃ n, s.Meets root.unit stack n ∧ (visit root.file ⟨root.unit, n⟩).Calls s holds d
  | check c call, d => (check c call).Calls s holds d
  | visit file c, d => (visit file c).Calls s holds d
  | checkAll call definitions found, d => (checkAll call definitions found).Calls s holds d

/-- The failures that an errand runs into before a function is entered. -/
def Stops : Errand → Failure → Prop
  | loop c, e => ∃ file, c.node.file? = some file ∧ ∃ n, s.Comes c.unit c.node n ∧
      s.isQueryUse c.unit n = false ∧
      (n.children = .error e ∨ (visit file ⟨c.unit, n⟩).Fails s holds e)
  | walk root _ stack _, e => ∃ n, s.Meets root.unit stack n ∧ s.isQueryUse root.unit n = false ∧
      (n.children = .error e ∨ (visit root.file ⟨root.unit, n⟩).Fails s holds e)
  | check c call, e => (check c call).Fails s holds e
  | visit file c, e => (visit file c).Fails s holds e
  | checkAll call definitions found, e => (checkAll call definitions found).Fails s holds e

/-- The body that the errand walks on its own account. -/
def bodies : Errand → List Cursor
  | loop c => if c.node.file?.isSome then [c] else []
  | _ => []

variable {s holds} {root : WalkRoot} {body x : Node} {xs rest : List Node} {b : Bool} (b' : Bool)

theorem asks_of_use {d : Cursor} (hu : s.isQueryUse root.unit x = true) :
    (walk root body (x :: rest) b).Asks s holds d ↔ (walk root body rest b').Asks s holds d := by
  have hx : ¬ (visit root.file ⟨root.unit, x⟩).Calls s holds d := fun h =>
    LoopSearch.kind_of_use hu h.1
  simp [Asks, LoopSearch.meets_of_use hu, or_and_right, exists_or, hx]

theorem stops_of_use {e : Failure} (hu : s.isQueryUse root.unit x = true) :
    (walk root body (x :: rest) b).Stops s holds e ↔
      (walk root body rest b').Stops s holds e := by
  simp [Stops, LoopSearch.meets_of_use hu, or_and_right, exists_or, hu]

/-- The errand falls into two parts. -/
structure Splits (s : LoopSearch ρ) (holds : ρ → Prop) (errand a b : Errand) : Prop where
  sees : errand.Sees s ↔ a.Sees s ∨ b.Sees s
  asks : ∀ d, errand.Asks s holds d ↔ a.Asks s holds d ∨ b.Asks s holds d
  stops : ∀ e, errand.Stops s holds e ↔ a.Stops s holds e ∨ b.Stops s holds e

theorem splits_children (hu : s.isQueryUse root.unit x = false) (hc : x.children = .ok xs) :
    Splits s holds (walk root body (x :: rest) b) (visit root.file ⟨root.unit, x⟩)
      (walk root body (xs ++ rest) b') where
  sees := by
    have hvisit : ¬ (visit root.file ⟨root.unit, x⟩).Sees s := id
    simp only [hvisit, false_or]
    simp [Sees, LoopSearch.meets_of_children hu hc, or_and_right, exists_or, hu]
  asks _ := by simp [Asks, LoopSearch.meets_of_children hu hc, or_and_right, exists_or]
  stops _ := by
    simp [Stops, LoopSearch.meets_of_children hu hc, or_and_right, exists_or, hu, hc]

theorem splits_definitions {call : Node} {d : Cursor} {ds : List Cursor} :
    Splits s holds (checkAll call (d :: ds) b) (check d (some call)) (checkAll call ds b') where
  sees := by simp [Sees]
  asks _ := by simp [Asks, Calls]
  stops _ := by simp [Stops, Fails]

/-- The errand has nothing to do. -/
structure Idle (s : LoopSearch ρ) (holds : ρ → Prop) (errand : Errand) : Prop where
  sees : ¬ errand.Sees s
  asks : ∀ d, ¬ errand.Asks s holds d
  stops : ∀ e, ¬ errand.Stops s holds e

theorem idle_skipped {file : String} {c : Cursor} (hc : c.node.kind ≠ .call) :
    Idle s holds (visit file c) :=
  ⟨id, fun _ h => hc h.1, fun _ h => hc h.1⟩

theorem idle_unnamed {file : String} {c : Cursor} (hn : c.simpleCallee = .ok none) :
    Idle s holds (visit file c) where
  sees := id
  asks _ h := h.unnamed hn
  stops := by
    rintro e ⟨hc, hr⟩
    cases hr with
    | misread hn' => cases hn.symm.trans hn'
    | lost hn' => cases hn.symm.trans hn'
    | @unlocated d hx =>
      have hcalls : (visit file c).Calls s holds d := ⟨hc, hx⟩
      exact hcalls.unnamed hn

theorem idle_nowhere {c : Cursor} (hf : c.node.file? = none) : Idle s holds (loop c) :=
  ⟨by simp [Sees, hf], by simp [Asks, hf], by simp [Stops, hf]⟩

theorem idle_emptied : Idle s holds (walk root body [] b) :=
  ⟨by simp [Sees, LoopSearch.Meets], by simp [Asks, LoopSearch.Meets],
    by simp [Stops, LoopSearch.Meets]⟩

theorem idle_done {call : Node} : Idle s holds (checkAll call [] b) :=
  ⟨id, by simp [Asks, Calls], by simp [Stops, Fails]⟩

/-- The two errands come to the same. -/
structure Alike (s : LoopSearch ρ) (holds : ρ → Prop) (a b : Errand) : Prop where
  found : a.found = b.found
  sees : a.Sees s ↔ b.Sees s
  asks : ∀ d, a.Asks s holds d ↔ b.Asks s holds d
  stops : ∀ e, a.Stops s holds e ↔ b.Stops s holds e

theorem alike_loop {c : Cursor} {file : String} (h : c.node.file? = some file) :
    Alike s holds (loop c) (walk (LoopSearch.loopRoot c file) c.node [c.node] false) where
  found := rfl
  sees := by simp [Sees, LoopSearch.Meets, h]
  asks _ := by simp [Asks, LoopSearch.Meets, h]
  stops _ := by simp [Stops, LoopSearch.Meets, h]

theorem alike_here {file : String} {c callee d : Cursor} {call : Option Node}
    (hc : c.node.kind = .call) (hn : c.simpleCallee = .ok (some callee))
    (hd : LoopSearch.definitionHere file callee = some d) :
    Alike s holds (visit file c) (check d call) where
  found := rfl
  sees := .rfl
  asks e := ⟨fun h => h.here hn hd, fun h => h ▸ ⟨hc, .here hn hd⟩⟩
  stops e := by
    refine ⟨?_, fun he => ⟨hc, .unlocated (.here hn hd) he⟩⟩
    rintro ⟨_, hr⟩
    cases hr with
    | misread hn' => cases hn.symm.trans hn'
    | lost hn' hd' =>
      cases hn.symm.trans hn'
      cases hd'.symm.trans hd
    | @unlocated d' hx he =>
      have hcalls : (visit file c).Calls s holds d' := ⟨hc, hx⟩
      exact hcalls.here hn hd ▸ he

/-- A callee that the resolver does not know counts as one without definitions. -/
theorem alike_elsewhere [HasLog ρ] {file : String} {c callee : Cursor} {call : Node}
    {found : Option (List Cursor)} (hs : s.Fixed holds) (hc : c.node.kind = .call)
    (hn : c.simpleCallee = .ok (some callee)) (hd : LoopSearch.definitionHere file callee = none)
    (hsay : s.Says holds callee (.ok found)) :
    Alike s holds (visit file c) (checkAll call (found.getD []) false) where
  found := rfl
  sees := .rfl
  asks e := by
    constructor
    · intro h
      obtain ⟨ds, hsay', hmem⟩ := h.elsewhere hn hd
      cases hs.agree hsay hsay'
      exact hmem
    · intro hmem
      cases found with
      | none => cases hmem
      | some ds => exact ⟨hc, .elsewhere hn hd hsay hmem⟩
  stops e := by
    constructor
    · rintro ⟨_, hr⟩
      cases hr with
      | misread hn' => cases hn.symm.trans hn'
      | lost hn' _ hsay' =>
        cases hn.symm.trans hn'
        cases hs.agree hsay hsay'
      | @unlocated d hx he =>
        have hcalls : (visit file c).Calls s holds d := ⟨hc, hx⟩
        obtain ⟨ds, hsay', hmem⟩ := hcalls.elsewhere hn hd
        cases hs.agree hsay hsay'
        exact ⟨d, hmem, he⟩
    · rintro ⟨d, hmem, he⟩
      cases found with
      | none => cases hmem
      | some ds => exact ⟨hc, .unlocated (.elsewhere hn hd hsay hmem) he⟩

end Errand

namespace LoopSearch

/-- The memo has the verdict of the function. -/
def Known (m : Memo) (d : Cursor) (v : Bool) : Prop :=
  ∃ id, DeclarationId.of d.node = .ok id ∧ m.standing id = .resolved v

variable {ρ : Type} {s : LoopSearch ρ} {holds : ρ → Prop} {n : Nat} {errand other : Errand}
  {m : Memo} {es : List Event} {r : Except Failure Bool}

theorem Known.unique {d : Cursor} {v w : Bool} (h : Known m d v) (h' : Known m d w) : v = w := by
  obtain ⟨id, hid, hv⟩ := h
  obtain ⟨id', hid', hw⟩ := h'
  cases hid.symm.trans hid'
  cases hv.symm.trans hw
  rfl

/-- What is known stays known, however a later errand ends. -/
theorem Known.later {d : Cursor} {v : Bool} (h : Known m d v) (hr : s.Runs holds n errand m es r)
    (ho : errand.owner = none) : Known (m.replay es) d v := by
  obtain ⟨id, hid, hv⟩ := h
  exact ⟨id, hid, by rw [hr.frame (by simp [hv]) (by simp [ho]), hv]⟩

/-- Nothing stops the errand, and the memo has the verdicts of all functions that it asks about. -/
structure Settled (s : LoopSearch ρ) (holds : ρ → Prop) (m : Memo) (errand : Errand) : Prop where
  goes : ∀ e, ¬ errand.Stops s holds e
  known : ∀ d, errand.Asks s holds d → ∃ v, Known m d v

/-- The answer of an errand, read off the memo. -/
def Finds (s : LoopSearch ρ) (holds : ρ → Prop) (m : Memo) (errand : Errand) : Prop :=
  errand.found = true ∨ errand.Sees s ∨ ∃ d, errand.Asks s holds d ∧ Known m d true

/-- No function that the errand asks about is in progress. -/
def Clear (s : LoopSearch ρ) (holds : ρ → Prop) (m : Memo) (errand : Errand) : Prop :=
  ∀ d id, errand.Asks s holds d → DeclarationId.of d.node = .ok id → m.standing id ≠ .inProgress

theorem Settled.clear (h : s.Settled holds m errand) : s.Clear holds m errand := by
  intro d id hd hid hp
  obtain ⟨v, id', hid', hv⟩ := h.known d hd
  cases hid.symm.trans hid'
  cases hp.symm.trans hv

theorem settled_of_use {root : WalkRoot} {body x : Node} {rest : List Node} {b b' : Bool}
    (hu : s.isQueryUse root.unit x = true) :
    s.Settled holds m (.walk root body (x :: rest) b) ↔
      s.Settled holds m (.walk root body rest b') :=
  ⟨fun h => ⟨fun e he => h.goes e ((Errand.stops_of_use _ hu).mpr he),
      fun d hd => h.known d ((Errand.asks_of_use _ hu).mpr hd)⟩,
    fun h => ⟨fun e he => h.goes e ((Errand.stops_of_use _ hu).mp he),
      fun d hd => h.known d ((Errand.asks_of_use _ hu).mp hd)⟩⟩

theorem settled_check {d : Cursor} {call : Option Node} {v : Bool} (h : Known m d v) :
    s.Settled holds m (.check d call) ∧ (v = true ↔ s.Finds holds m (.check d call)) := by
  obtain ⟨id, hid, hv⟩ := h
  refine ⟨⟨by simp [Errand.Stops, Errand.Fails, hid], ?_⟩, ?_⟩
  · rintro _ rfl
    exact ⟨v, id, hid, hv⟩
  · simp [Finds, Errand.found, Errand.Sees, Errand.Asks, Errand.Calls, Known, hid, hv]

theorem settled_of_idle (h : errand.Idle s holds) :
    s.Settled holds m errand ∧ (errand.found = true ↔ s.Finds holds m errand) := by
  refine ⟨⟨h.stops, fun d hd => absurd hd (h.asks d)⟩, ?_⟩
  simp [Finds, h.sees, h.asks]

theorem settled_of_alike {b : Bool} (h : errand.Alike s holds other)
    (ho : s.Settled holds m other ∧ (b = true ↔ s.Finds holds m other)) :
    s.Settled holds m errand ∧ (b = true ↔ s.Finds holds m errand) := by
  obtain ⟨⟨hgoes, hknown⟩, hanswer⟩ := ho
  refine ⟨⟨fun e he => hgoes e ((h.stops e).mp he), fun d hd => hknown d ((h.asks d).mp hd)⟩, ?_⟩
  rw [hanswer]
  simp [Finds, h.found, h.sees, h.asks]

/-- The second part keeps what the first one has settled. -/
theorem settled_of_splits {a c : Errand} {fs : List Event} {reached v : Bool}
    (h : errand.Splits s holds a c)
    (ha : s.Settled holds (m.replay es) a ∧ (reached = true ↔ s.Finds holds (m.replay es) a))
    (hc : s.Settled holds (m.replay (es ++ fs)) c ∧
      (v = true ↔ s.Finds holds (m.replay (es ++ fs)) c))
    (hr : s.Runs holds n c (m.replay es) fs r) (ho : c.owner = none) (haf : a.found = false)
    (hcf : c.found = (errand.found || reached)) :
    s.Settled holds (m.replay (es ++ fs)) errand ∧
      (v = true ↔ s.Finds holds (m.replay (es ++ fs)) errand) := by
  have hlater : ∀ {d w}, Known (m.replay es) d w → Known (m.replay (es ++ fs)) d w := by
    intro d w hd
    rw [Memo.replay_append]
    exact hd.later hr ho
  have hsame : ∀ d, a.Asks s holds d →
      (Known (m.replay es) d true ↔ Known (m.replay (es ++ fs)) d true) := by
    intro d hd
    obtain ⟨w, hw⟩ := ha.1.known d hd
    exact ⟨hlater, fun hd' => (hlater hw).unique hd' ▸ hw⟩
  refine ⟨⟨fun e he => ?_, fun d hd => ?_⟩, ?_⟩
  · rcases (h.stops e).mp he with he | he
    · exact ha.1.goes e he
    · exact hc.1.goes e he
  · rcases (h.asks d).mp hd with hd | hd
    · obtain ⟨w, hw⟩ := ha.1.known d hd
      exact ⟨w, hlater hw⟩
    · exact hc.1.known d hd
  · have hreached : reached = true ↔ a.Sees s ∨ ∃ d, a.Asks s holds d ∧
        Known (m.replay (es ++ fs)) d true := by
      rw [ha.2, Finds, haf]
      simp only [Bool.false_eq_true, false_or]
      exact or_congr_right (exists_congr fun d => and_congr_right (hsame d))
    rw [hc.2, Finds, Finds, hcf, h.sees, Bool.or_eq_true, hreached]
    simp only [h.asks, or_and_right, exists_or, or_assoc, or_left_comm]

/-- What an errand that ends well leaves behind: the memo has all that it asked, and the answer can
be read off it. -/
theorem Runs.settles [HasLog ρ] (hs : s.Fixed holds) (h : s.Runs holds n errand m es r) {b : Bool}
    (hb : r = .ok b) (ho : errand.owner = none) (hm : s.Clear holds m errand) :
    s.Settled holds (m.replay es) errand ∧ (b = true ↔ s.Finds holds (m.replay es) errand) := by
  induction h generalizing b with
  | unlocated | tooDeep | broken | halted | closed | misread | lost | failed => cases hb
  | nowhere hf =>
    cases hb
    exact settled_of_idle (Errand.idle_nowhere hf)
  | loop hf _ ih =>
    have halike : Errand.Alike s holds _ _ := Errand.alike_loop hf
    exact settled_of_alike halike (ih hb rfl fun d id hd => hm d id ((halike.asks d).mpr hd))
  | @known n m d call id hid hv hverdict =>
    cases hb
    refine settled_check ⟨id, hid, ?_⟩
    cases hst : m.standing id with
    | unvisited => exact absurd hst hv
    -- The memo is clear: nothing that is asked about is in progress.
    | inProgress => exact absurd hst (hm d id rfl hid)
    | resolved v => simpa [Memo.verdictOf_eq, hst] using hverdict
  | recalled hid hverdict =>
    cases hb
    exact settled_check ⟨_, hid, Memo.verdictOf_eq_true_iff.mp hverdict⟩
  | checked hid =>
    cases hb
    exact settled_check ⟨_, hid, by simp [Memo.standing_record]⟩
  | emptied =>
    cases hb
    exact settled_of_idle Errand.idle_emptied
  | settled _ hf => exact absurd (hf.symm.trans ho) (by simp)
  | @noted n m root body x rest found es r hu _ _ ih =>
    have hclear : s.Clear holds m (.walk root body rest true) := fun d id hd =>
      hm d id ((Errand.asks_of_use _ hu).mpr hd)
    obtain ⟨hrest, hanswer⟩ := ih hb ho hclear
    have hsees : (Errand.walk root body (x :: rest) found).Sees s :=
      ⟨x, (meets_of_use hu).mpr (.inl rfl), hu⟩
    exact ⟨(settled_of_use hu).mpr hrest, fun _ => .inr (.inl hsees),
      fun _ => hanswer.mpr (.inl rfl)⟩
  | @passed n m root body x xs rest found es fs reached r hu hvisit hc hwalk ih ih' =>
    have hsplit : Errand.Splits s holds (.walk root body (x :: rest) found) _
        (.walk root body (xs ++ rest) (found || reached)) := Errand.splits_children _ hu hc
    have hfirst := ih rfl rfl fun d id hd => hm d id ((hsplit.asks d).mpr (.inl hd))
    have hsecond := ih' hb ho fun d id hd hid hp =>
      hm d id ((hsplit.asks d).mpr (.inr hd)) hid (hvisit.inProgress_before rfl hp)
    rw [← Memo.replay_append] at hsecond
    exact settled_of_splits hsplit hfirst hsecond hwalk ho rfl rfl
  | skipped hc =>
    cases hb
    exact settled_of_idle (Errand.idle_skipped hc)
  | unnamed _ hn =>
    cases hb
    exact settled_of_idle (Errand.idle_unnamed hn)
  | @here n m file c callee d es r hc hn hd _ ih =>
    have halike : Errand.Alike s holds _ (.check d (some c.node)) := Errand.alike_here hc hn hd
    exact settled_of_alike halike (ih hb rfl fun d id hd => hm d id ((halike.asks d).mpr hd))
  | @unknown n m file c callee hc hn hd hsay =>
    cases hb
    have halike : Errand.Alike s holds _ (.checkAll c.node [] false) :=
      Errand.alike_elsewhere hs hc hn hd hsay
    exact settled_of_alike halike (settled_of_idle Errand.idle_done)
  | @elsewhere n m file c callee ds es r hc hn hd hsay _ ih =>
    have halike : Errand.Alike s holds _ (.checkAll c.node ds false) :=
      Errand.alike_elsewhere hs hc hn hd hsay
    exact settled_of_alike halike (ih hb rfl fun d id hd => hm d id ((halike.asks d).mpr hd))
  | done =>
    cases hb
    exact settled_of_idle Errand.idle_done
  | @next n m call d ds found es fs reached r hcheck hrest ih ih' =>
    have hsplit : Errand.Splits s holds (.checkAll call (d :: ds) found) _
        (.checkAll call ds (found || reached)) := Errand.splits_definitions _
    have hfirst := ih rfl rfl fun d id hd => hm d id ((hsplit.asks d).mpr (.inl hd))
    have hsecond := ih' hb rfl fun d id hd hid hp =>
      hm d id ((hsplit.asks d).mpr (.inr hd)) hid (hcheck.inProgress_before rfl hp)
    rw [← Memo.replay_append] at hsecond
    exact settled_of_splits hsplit hfirst hsecond hrest rfl rfl rfl

theorem Settled.alike (h : s.Settled holds m errand) (ha : errand.Alike s holds other) :
    s.Settled holds m other :=
  ⟨fun e he => h.goes e ((ha.stops e).mpr he), fun d hd => h.known d ((ha.asks d).mpr hd)⟩

theorem Settled.parts {a c : Errand} (h : s.Settled holds m errand)
    (hp : errand.Splits s holds a c) : s.Settled holds m a ∧ s.Settled holds m c :=
  ⟨⟨fun e he => h.goes e ((hp.stops e).mpr (.inl he)),
      fun d hd => h.known d ((hp.asks d).mpr (.inl hd))⟩,
    ⟨fun e he => h.goes e ((hp.stops e).mpr (.inr he)),
      fun d hd => h.known d ((hp.asks d).mpr (.inr hd))⟩⟩

theorem Settled.visited {d : Cursor} {call : Option Node} {id : DeclarationId}
    (h : s.Settled holds m (.check d call)) (hid : DeclarationId.of d.node = .ok id) :
    m.standing id ≠ .unvisited := by
  obtain ⟨v, id', hid', hv⟩ := h.known d rfl
  cases hid.symm.trans hid'
  simp [hv]

/-- An errand that the memo has settled ends well and begins nothing. -/
theorem Runs.unchanged [HasLog ρ] (hs : s.Fixed holds) (h : s.Runs holds n errand m es r)
    (ho : errand.owner = none) (hm : s.Settled holds m errand) :
    (∃ b, r = .ok b) ∧ m.replay es = m ∧ es.filterMap Event.walked? = errand.bodies := by
  induction h with
  | nowhere hf => exact ⟨⟨_, rfl⟩, rfl, by simp [Errand.bodies, hf]⟩
  | known | recalled | emptied | skipped | unnamed | unknown | done => exact ⟨⟨_, rfl⟩, rfl, rfl⟩
  | unlocated hid => exact absurd hid (hm.goes _)
  | tooDeep hid hu | broken hid hu | checked hid hu => exact absurd hu (hm.visited hid)
  | settled _ hf => exact absurd (hf.symm.trans ho) (by simp)
  | misread hc hn => exact absurd ⟨hc, .misread hn⟩ (hm.goes _)
  | lost hc hn hd hsay => exact absurd ⟨hc, .lost hn hd hsay⟩ (hm.goes _)
  | loop hf _ ih =>
    obtain ⟨hr, hmemo, hwalked⟩ := ih rfl (hm.alike (Errand.alike_loop hf))
    exact ⟨hr, hmemo, by simp [hwalked, Errand.bodies, Event.walked?, hf]⟩
  | noted hu _ _ ih =>
    obtain ⟨hr, hmemo, hwalked⟩ := ih ho ((settled_of_use hu).mp hm)
    exact ⟨hr, hmemo, hwalked⟩
  | @halted n m root body x rest found es e hu _ ih =>
    have hmeets : s.Meets root.unit (x :: rest) x := ⟨x, List.mem_cons_self, .self x⟩
    have hvisit : s.Settled holds m (.visit root.file ⟨root.unit, x⟩) :=
      ⟨fun e he => hm.goes e ⟨x, hmeets, hu, .inr he⟩, fun d hd => hm.known d ⟨x, hmeets, hd⟩⟩
    exact absurd (ih rfl hvisit).1 (by simp)
  | @closed n m root body x rest found es reached e hu _ hc _ =>
    exact absurd ⟨x, ⟨x, List.mem_cons_self, .self x⟩, hu, .inl hc⟩ (hm.goes e)
  | @passed n m root body x xs rest found es fs reached r hu _ hc _ ih ih' =>
    obtain ⟨hvisit, hwalk⟩ := hm.parts (Errand.splits_children _ hu hc)
    obtain ⟨_, hmemo, hwalked⟩ := ih rfl hvisit
    rw [hmemo] at ih'
    obtain ⟨hr, hmemo', hwalked'⟩ := ih' ho hwalk
    rw [Memo.replay_append, hmemo, List.filterMap_append, hwalked, hwalked']
    exact ⟨hr, hmemo', rfl⟩
  | here hc hn hd _ ih => exact ih rfl (hm.alike (Errand.alike_here hc hn hd))
  | elsewhere hc hn hd hsay _ ih =>
    exact ih rfl (hm.alike (Errand.alike_elsewhere hs hc hn hd hsay))
  | failed _ ih => exact absurd (ih rfl (hm.parts (Errand.splits_definitions false)).1).1 (by simp)
  | next _ _ ih ih' =>
    obtain ⟨hcheck, hrest⟩ := hm.parts (Errand.splits_definitions _)
    obtain ⟨_, hmemo, hwalked⟩ := ih rfl hcheck
    rw [hmemo] at ih'
    obtain ⟨hr, hmemo', hwalked'⟩ := ih' rfl hrest
    rw [Memo.replay_append, hmemo, List.filterMap_append, hwalked, hwalked']
    exact ⟨hr, hmemo', rfl⟩

theorem Known.afterwards {steps : List Step} {rs : List (Except Failure Bool)} {d : Cursor}
    {v : Bool} (h : Known m d v) (hr : s.RunsAll holds steps m es rs) :
    Known (m.replay es) d v := by
  induction hr with
  | nil => exact h
  | cons hrun _ ih =>
    rw [Memo.replay_append]
    exact ih (h.later hrun (Step.owner_errand _))

/-- Steps that are taken in between change neither what is settled nor the answer. -/
theorem Settled.afterwards {steps : List Step} {rs : List (Except Failure Bool)}
    (h : s.Settled holds m errand) (hr : s.RunsAll holds steps m es rs) :
    s.Settled holds (m.replay es) errand ∧
      (s.Finds holds (m.replay es) errand ↔ s.Finds holds m errand) := by
  constructor
  · refine ⟨h.goes, fun d hd => ?_⟩
    obtain ⟨v, hv⟩ := h.known d hd
    exact ⟨v, hv.afterwards hr⟩
  · refine or_congr_right (or_congr_right (exists_congr fun d => and_congr_right fun hd => ?_))
    obtain ⟨v, hv⟩ := h.known d hd
    exact ⟨fun ht => (hv.afterwards hr).unique ht ▸ hv, fun ht => ht.afterwards hr⟩

/-- A loop inside another one, in the same file and not below a query use. -/
structure Inside (s : LoopSearch ρ) (inner outer : Cursor) : Prop where
  unit : inner.unit = outer.unit
  file : inner.node.file? = outer.node.file?
  comes : s.Comes outer.unit outer.node inner.node

theorem Inside.refl (c : Cursor) : s.Inside c c :=
  ⟨rfl, rfl, .self c.node⟩

theorem Inside.settled {inner outer : Cursor} (h : s.Inside inner outer)
    (ho : s.Settled holds m (.loop outer)) : s.Settled holds m (.loop inner) := by
  obtain ⟨u, x⟩ := inner
  obtain ⟨rfl, hfile, hcomes⟩ := h
  constructor
  · rintro e ⟨file, hf, n, hn, he⟩
    exact ho.goes e ⟨file, hfile ▸ hf, n, hcomes.trans hn, he⟩
  · rintro d ⟨file, hf, n, hn, hd⟩
    exact ho.known d ⟨file, hfile ▸ hf, n, hcomes.trans hn, hd⟩

theorem Inside.finds {inner outer : Cursor} (h : s.Inside inner outer)
    (hi : s.Finds holds m (.loop inner)) : s.Finds holds m (.loop outer) := by
  obtain ⟨u, x⟩ := inner
  obtain ⟨rfl, hfile, hcomes⟩ := h
  rcases hi with hfound | ⟨hf, n, hn, hu⟩ | ⟨d, ⟨file, hf, n, hn, hd⟩, hk⟩
  · cases hfound
  · exact .inr (.inl ⟨hfile ▸ hf, n, hcomes.trans hn, hu⟩)
  · exact .inr (.inr ⟨d, ⟨file, hfile ▸ hf, n, hcomes.trans hn, hd⟩, hk⟩)

/-- Once a loop was checked, a loop inside it is answered from the memo: no function is walked, the
answer is false if that of the outer loop was, and the loop itself gets the answer that it had. This
holds over any call graph and whatever steps are taken in between, failing ones among them. -/
theorem checkLoop_repeats [HasLog ρ] (hs : s.Fixed holds) {st st' : WalkState ρ}
    (hp : holds st.project) (hidle : ∀ id, st.memo.standing id ≠ .inProgress)
    {outer inner : Cursor} {b : Bool} (hrun : (s.checkLoop outer).run st = (.ok b, st'))
    (hin : s.Inside inner outer) (steps : List Step) :
    ∃ b' now after, now = (s.performAll steps st').2 ∧
      (s.checkLoop inner).run now = (.ok b', after) ∧ after.memo = now.memo ∧
      after.walked = now.walked ++ [inner].filter (·.node.file?.isSome) ∧
      (b = false → b' = false) ∧ (inner = outer → b' = b) := by
  have htells : ∀ c, s.Tells holds s.bound (.loop c) (s.checkLoop c) := fun c =>
    (recounts_checkLoop hs.toKeeps.tracks c).tells
  obtain ⟨es, hr, hf⟩ := htells outer st hp
  rw [hrun] at hr hf
  obtain ⟨hsettled, hanswer⟩ := hr.settles hs rfl rfl fun _ id _ _ => hidle id
  rw [← hf.memo] at hsettled hanswer
  obtain ⟨trace, hrs, hfs⟩ := tells_performAll hs.toKeeps steps st' (hf.project hp)
  obtain ⟨hstill, hsame⟩ := hsettled.afterwards hrs
  rw [← hfs.memo] at hstill hsame
  generalize (s.performAll steps st').2 = now at hfs hstill hsame
  obtain ⟨es', hr', hf'⟩ := htells inner now (hfs.project (hf.project hp))
  have hinner := hin.settled hstill
  obtain ⟨⟨b', hb'⟩, hmemo, hwalked⟩ := hr'.unchanged hs rfl hinner
  have hanswer' := (hr'.settles hs hb' rfl hinner.clear).2
  rw [hmemo] at hanswer'
  refine ⟨b', now, _, rfl, Prod.ext hb' rfl, hf'.memo.trans hmemo, ?_, ?_, ?_⟩
  · rw [hf'.walked, hwalked]
    cases hfile : inner.node.file? <;> simp [Errand.bodies, hfile]
  · rintro rfl
    by_contra hne
    have hfound := hin.finds (hanswer'.mp (by simpa using hne))
    exact absurd (hanswer.mpr (hsame.mp hfound)) (by simp)
  · rintro rfl
    rw [Bool.eq_iff_iff, hanswer', hanswer, ← hsame]

end LoopSearch

namespace Resolver

/-- Where each path has a single parse result, the resolver has one outcome for each callee. -/
theorem fixed {r : Resolver} {s : LoopSearch ProjectState} (hr : s.resolve = r.resolve)
    (hs : r.frontEnd.program.Single) : s.Fixed r.Consistent where
  toKeeps := (steady hr hs).toKeeps
  agree := by
    rintro callee answer answer' ⟨p, hp, rfl⟩ ⟨p', hp', rfl⟩
    obtain ⟨result, h⟩ := resolve_determined hs callee
    rw [hr, (h p hp).1, (h p' hp').1]

end Resolver

namespace Sample

def innermost : Node := loop 10 (place 64) [call 11 68 2]

def outermost : Node := loop 9 (place 60) [innermost]

/-- The functions `ping` and `pong` again, with a loop that holds nothing but a loop over `ping`. -/
def nestedTree : Node :=
  .mk 0 { kind := .other "TRANSLATION_UNIT" } [record, ping, pong, outermost]

def nestedUnit : TranslationUnit where
  nodes := nestedTree.listed.toArray
  types := unit.types

theorem innermost_inside : search.Inside ⟨nestedUnit, innermost⟩ ⟨nestedUnit, outermost⟩ where
  unit := rfl
  file := rfl
  comes := .under rfl rfl List.mem_cons_self (.self innermost)

/-- The verdict on `pong` was recorded while its caller was in progress. Nevertheless the inner loop
is walked alone, and a second check of the outer loop finds the query again. -/
theorem outermost_repeated :
    ((search.checkLoop ⟨nestedUnit, outermost⟩).run { project := {} }).1 = .ok true ∧
      (∃ b now after,
        now = (search.performAll [] ((search.checkLoop ⟨nestedUnit, outermost⟩).run
          { project := {} }).2).2 ∧
        (search.checkLoop ⟨nestedUnit, innermost⟩).run now = (.ok b, after) ∧
        after.walked = now.walked ++ [⟨nestedUnit, innermost⟩]) ∧
      ∃ now after,
        now = (search.performAll [.loop ⟨nestedUnit, innermost⟩]
          ((search.checkLoop ⟨nestedUnit, outermost⟩).run { project := {} }).2).2 ∧
        (search.checkLoop ⟨nestedUnit, outermost⟩).run now = (.ok true, after) := by
  have hrun : ((search.checkLoop ⟨nestedUnit, outermost⟩).run { project := {} }).1 = .ok true := by
    decide +kernel
  have hs : search.Fixed resolver.Consistent := Resolver.fixed rfl single
  obtain ⟨b, now, after, hnow, hafter, _, hwalked, _⟩ := LoopSearch.checkLoop_repeats hs .empty
    (by simp) (Prod.ext hrun rfl) innermost_inside []
  obtain ⟨b', now', after', hnow', hafter', _, _, _, hsame⟩ :=
    LoopSearch.checkLoop_repeats hs .empty (by simp) (Prod.ext hrun rfl) (.refl _)
      [.loop ⟨nestedUnit, innermost⟩]
  cases hsame rfl
  exact ⟨hrun, ⟨b, now, after, hnow, hafter, hwalked⟩, now', after', hnow', hafter'⟩

end Sample

end NPlusOne
