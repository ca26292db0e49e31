import Mathlib.Algebra.Ring.Nat
import NPlusOne.Proofs.CallListing
import NPlusOne.Proofs.ResolverRun
import NPlusOne.Proofs.SearchFuel
import NPlusOne.Proofs.SearchMemo
import NPlusOne.Proofs.TypeChain

namespace NPlusOne

theorem DeclarationId.of_ne_tooDeep (n : Node) : DeclarationId.of n ≠ .error .tooDeep := by
  unfold DeclarationId.of
  split <;> simp

theorem DeclarationId.of_eq_ok {n : Node} {id : DeclarationId}
    (h : (DeclarationId.of n).toOption = some id) : DeclarationId.of n = .ok id := by
  cases hof : DeclarationId.of n with
  | error e => simp [hof, Except.toOption] at h
  | ok other => simpa [hof, Except.toOption] using h

theorem Node.isPlainName_ne_tooDeep (n : Node) : n.isPlainName ≠ .error .tooDeep := by
  obtain ⟨id, info, children⟩ := n
  unfold isPlainName
  split
  next =>
    split
    next => simp
    next inner _ => exact isPlainName_ne_tooDeep inner
    next => simp
  next => simp

theorem Cursor.simpleCallee_ne_tooDeep (c : Cursor) : c.simpleCallee ≠ .error .tooDeep := by
  unfold simpleCallee
  split
  next => simp
  next callee _ =>
    split
    next => simp
    next =>
      split
      next e he =>
        rintro ⟨⟩
        exact Node.children_ne_error (by simp) he
      next => simp
      next expr _ _ =>
        split
        next e he =>
          rintro ⟨⟩
          exact expr.isPlainName_ne_tooDeep he
        next => simp

namespace Memo

variable {m : Memo} {ids : Finset DeclarationId} {id : DeclarationId}

/-- The functions of a set that a search has yet to begin. -/
def unvisited (m : Memo) (ids : Finset DeclarationId) : Finset DeclarationId :=
  ids.filter (m.standing · = .unvisited)

theorem card_unvisited_begin (hid : id ∈ ids) (hu : m.standing id = .unvisited) :
    ((m.begin id).2.unvisited ids).card < (m.unvisited ids).card := by
  refine Finset.card_lt_card ⟨fun other ho => ?_, fun hsub => ?_⟩
  · obtain ⟨hmem, hs⟩ := Finset.mem_filter.mp ho
    rw [standing_begin hu] at hs
    split at hs
    next => cases hs
    next => exact Finset.mem_filter.mpr ⟨hmem, hs⟩
  · have hs := (Finset.mem_filter.mp (hsub (Finset.mem_filter.mpr ⟨hid, hu⟩))).2
    simp [standing_begin hu] at hs

theorem card_unvisited_replay (m : Memo) (ids : Finset DeclarationId) (es : List Event) :
    ((m.replay es).unvisited ids).card ≤ (m.unvisited ids).card :=
  Finset.card_le_card fun _ ho =>
    Finset.mem_filter.mpr ⟨(Finset.mem_filter.mp ho).1,
      unvisited_of_replay (Finset.mem_filter.mp ho).2⟩

end Memo

namespace LoopSearch

variable {ρ : Type} {s : LoopSearch ρ} {holds : ρ → Prop} {met : Cursor → Prop} {n : Nat}
  {errand : Errand} {m : Memo} {es : List Event} {r : Except Failure Bool}

/-- A search does not run out of depth while it has no more functions left to begin than it may
still go down: each nested walk takes one of them away. -/
theorem Runs.ne_tooDeep (h : s.Runs holds n errand m es r) {ids : Finset DeclarationId}
    (hids : ∀ d id, met d → DeclarationId.of d.node = .ok id → id ∈ ids)
    (hsay : ∀ callee, ¬ s.Says holds callee (.error .tooDeep)) (hw : errand.Within s holds met)
    (hn : (m.unvisited ids).card ≤ n) : r ≠ .error .tooDeep := by
  induction h with
  | nowhere | known | recalled | checked | emptied | settled | skipped | unnamed | unknown | done =>
    simp
  | unlocated hid =>
    rintro ⟨⟩
    exact DeclarationId.of_ne_tooDeep _ hid
  | closed _ _ hc =>
    rintro ⟨⟩
    exact Node.children_ne_error (by simp) hc
  | misread _ hs =>
    rintro ⟨⟩
    exact Cursor.simpleCallee_ne_tooDeep _ hs
  | lost _ _ _ hsays =>
    rintro ⟨⟩
    exact hsay _ hsays
  | @tooDeep m d call id hid hu =>
    have hlt := Memo.card_unvisited_begin (hids d id (hw d d rfl .refl) hid) hu
    omega
  | @broken n m d call id es e hid hu _ ih =>
    have hlt := Memo.card_unvisited_begin (hids d id (hw d d rfl .refl) hid) hu
    exact ih (hw.function hid) (by omega)
  | loop hf _ ih => exact ih ((Errand.part_loop hf).within hw) hn
  | noted _ _ _ ih => exact ih (Errand.part_tail.within hw) hn
  | halted _ _ ih => exact ih (Errand.part_head.within hw) hn
  | @passed n m root body x xs rest found es fs reached r _ _ hc _ _ ih =>
    have hle := m.card_unvisited_replay ids es
    exact ih ((Errand.part_children hc).within hw) (by omega)
  | here hc hs hd _ ih => exact ih ((Errand.part_here hc hs hd).within hw) hn
  | elsewhere hc hs hd hsay _ ih => exact ih ((Errand.part_elsewhere hc hs hd hsay).within hw) hn
  | failed _ ih => exact ih (Errand.part_first.within hw) hn
  | @next n m call d ds found es fs reached r _ _ _ ih =>
    have hle := m.card_unvisited_replay ids es
    exact ih (Errand.part_rest.within hw) (by omega)

end LoopSearch

/-- The unit that the parser has made, if it has. -/
def ParseOutcome.unit? : ParseOutcome → Option TranslationUnit
  | .unit u => some u
  | _ => none

namespace Program

/-- All units that parsing can give. -/
def units (p : Program) : List TranslationUnit :=
  (p.outcomes.flatMap Prod.snd).filterMap ParseOutcome.unit?

theorem nth_mem {outcomes : List ParseOutcome} {n : Nat} {u : TranslationUnit}
    (h : nth outcomes n = .unit u) : .unit u ∈ outcomes := by
  fun_induction nth outcomes n with
  | case1 => cases h
  | case2 => simp [h]
  | case3 => simp [h]
  | case4 _ _ _ _ ih => exact List.mem_cons_of_mem _ (ih h)

theorem mem_units {p : Program} {path : String} {earlier : Nat} {u : TranslationUnit}
    (h : p.parse path earlier = .unit u) : u ∈ p.units := by
  unfold parse at h
  split at h
  next name outcomes hfind =>
    refine List.mem_filterMap.mpr ⟨.unit u, ?_, rfl⟩
    exact List.mem_flatMap.mpr ⟨_, List.mem_of_find?_eq_some hfind, nth_mem h⟩
  next => cases h

theorem nodeCount_eq (p : Program) : p.nodeCount = (p.units.map (·.nodes.size)).sum := by
  rw [nodeCount, units, ← Nat.zero_add (List.sum _)]
  generalize p.outcomes.flatMap Prod.snd = os
  generalize 0 = n
  induction os generalizing n with
  | nil => rfl
  | cons o os ih =>
    rw [List.foldl_cons, ih]
    cases o with
    | unit u => simp [ParseOutcome.unit?, Nat.add_assoc]
    | rejected | nothing => rfl

end Program

namespace TranslationUnit

/-- The ids that the nodes of a unit have. -/
def ids (u : TranslationUnit) : List DeclarationId :=
  (u.nodes.toList ++ u.root.listed).filterMap fun n => (DeclarationId.of n).toOption

theorem mem_ids {u : TranslationUnit} {n : Node} {id : DeclarationId} (h : u.Has n)
    (hid : DeclarationId.of n = .ok id) : id ∈ u.ids := by
  refine List.mem_filterMap.mpr ⟨n, ?_, by rw [hid]; rfl⟩
  rcases h with h | h
  · exact List.mem_append_left _ (by simpa using h)
  · exact List.mem_append_right _ (Node.contains_iff_mem_listed.mp h)

/-- Every node of the tree is listed by number, with all that is known about it. -/
def Listed (u : TranslationUnit) : Prop :=
  ∀ n, u.root.Contains n → ∃ m ∈ u.nodes, m.info = n.info

theorem Listed.mem_ids {u : TranslationUnit} (h : u.Listed) {id : DeclarationId}
    (hid : id ∈ u.ids) : ∃ n ∈ u.nodes, DeclarationId.of n = .ok id := by
  obtain ⟨n, hn, hsome⟩ := List.mem_filterMap.mp hid
  have hof := DeclarationId.of_eq_ok hsome
  rcases List.mem_append.mp hn with hn | hn
  · exact ⟨n, by simpa using hn, hof⟩
  · obtain ⟨m, hm, hinfo⟩ := h n (Node.contains_iff_mem_listed.mpr hn)
    have hsame : DeclarationId.of m = DeclarationId.of n := by
      simp only [DeclarationId.of, Node.spelling, hinfo]
    exact ⟨m, hm, hsame.trans hof⟩

end TranslationUnit

namespace Resolver

variable {r : Resolver} {p : ProjectState} {step : Step}

/-- All units that a step can come upon: its own, those that were parsed before, and those that are
parsed on demand. -/
def visible (r : Resolver) (p : ProjectState) (step : Step) : List TranslationUnit :=
  step.root.unit :: (p.cache.units.map (·.2.unit) ++ r.frontEnd.program.units)

theorem mem_visible {p : ProjectState} {step : Step} {u : TranslationUnit}
    (h : u ∈ r.frontEnd.program.units) : u ∈ r.visible p step :=
  List.mem_cons_of_mem _ (List.mem_append_right _ h)

/-- The ids of all functions that a step can begin. -/
def candidates (r : Resolver) (p : ProjectState) (step : Step) : Finset DeclarationId :=
  ((DeclarationId.of step.root.node).toOption.toList ++
    (r.visible p step).flatMap TranslationUnit.ids).toFinset

/-- The functions that a step may come to. -/
def Meets (r : Resolver) (p : ProjectState) (step : Step) (d : Cursor) : Prop :=
  d.unit ∈ r.visible p step ∧ (d = step.root ∨ d.unit.Has d.node)

theorem Meets.candidate {d : Cursor} {id : DeclarationId} (h : r.Meets p step d)
    (hid : DeclarationId.of d.node = .ok id) : id ∈ r.candidates p step := by
  rw [candidates, List.mem_toFinset]
  obtain ⟨hunit, rfl | hhas⟩ := h
  · exact List.mem_append_left _ (by simp [hid, Except.toOption])
  · exact List.mem_append_right _ (List.mem_flatMap.mpr ⟨_, hunit, d.unit.mem_ids hhas hid⟩)

/-- Where all units are the program's and list their nodes, there are no more functions to begin
than the program has nodes. -/
theorem card_candidates_le
    (hu : ∀ u ∈ r.visible p step, u ∈ r.frontEnd.program.units ∧ u.Listed)
    (hroot : step.root.unit.Has step.root.node) :
    (r.candidates p step).card ≤ r.frontEnd.program.nodeCount := by
  have hsub : r.candidates p step ⊆ ((r.frontEnd.program.units.flatMap (·.nodes.toList)).filterMap
      fun n => (DeclarationId.of n).toOption).toFinset := by
    intro id hid
    have hmem : ∃ u ∈ r.visible p step, id ∈ u.ids := by
      rcases List.mem_append.mp (List.mem_toFinset.mp hid) with hid | hid
      · have hof := DeclarationId.of_eq_ok (Option.mem_toList.mp hid)
        exact ⟨_, List.mem_cons_self, TranslationUnit.mem_ids hroot hof⟩
      · exact List.mem_flatMap.mp hid
    obtain ⟨u, hvisible, hid⟩ := hmem
    obtain ⟨hprogram, hlisted⟩ := hu u hvisible
    obtain ⟨n, hn, hof⟩ := hlisted.mem_ids hid
    refine List.mem_toFinset.mpr (List.mem_filterMap.mpr ⟨n, ?_, by rw [hof]; rfl⟩)
    exact List.mem_flatMap.mpr ⟨u, hprogram, by simpa using hn⟩
  calc (r.candidates p step).card
      ≤ _ := Finset.card_le_card hsub
    _ ≤ _ := List.toFinset_card_le _
    _ ≤ (r.frontEnd.program.units.flatMap (·.nodes.toList)).length := List.length_filterMap_le _ _
    _ = r.frontEnd.program.nodeCount := by
      rw [Program.nodeCount_eq, List.length_flatMap]
      rfl

/-- Only the given units are kept. -/
def Sees (units : List TranslationUnit) (p : ProjectState) : Prop :=
  ∀ path loaded, p.cache.find? path = some loaded → loaded.unit ∈ units

theorem sees_visible (r : Resolver) (p : ProjectState) (step : Step) :
    Sees (r.visible p step) p := by
  intro path loaded hfind
  obtain ⟨entry, hentry, rfl⟩ := Option.map_eq_some_iff.mp hfind
  have hmem := List.mem_of_find?_eq_some hentry
  exact List.mem_cons_of_mem _ (List.mem_append_left _ (List.mem_map_of_mem hmem))

theorem preserves_sees {units : List TranslationUnit}
    (h : ∀ u ∈ r.frontEnd.program.units, u ∈ units) : r.Preserves (Sees units) where
  load path p hp := by
    intro other loaded hfind
    rcases (FrontEnd.loads_load r.frontEnd path p.cache).parsed_of_find? hfind with hold | ⟨_, hnew⟩
    · exact hp other loaded hold
    · exact h _ (Program.mem_units hnew)
  log _ _ _ hp := hp
  index _ _ _ hp := hp

end Resolver

namespace LoopSearch

variable {r : Resolver} {s : LoopSearch ProjectState} {units : List TranslationUnit}

theorem keeps_sees (hr : s.resolve = r.resolve) (h : ∀ u ∈ r.frontEnd.program.units, u ∈ units) :
    s.Keeps (Resolver.Sees units) where
  resolve callee p hp := by
    rw [hr]
    exact (Resolver.preserves_sees h).resolve callee p hp
  append _ _ hp := hp

/-- A call in a visible unit leads to functions of visible units. -/
theorem Expands.visible (hr : s.resolve = r.resolve)
    (h : ∀ u ∈ r.frontEnd.program.units, u ∈ units) {file : Option String} {call d : Cursor}
    (hd : s.Expands (Resolver.Sees units) file call d) (hc : call.unit ∈ units) :
    d.unit ∈ units ∧ d.unit.Has d.node := by
  cases hd with
  | here hs hhere =>
    obtain ⟨name, _, hhere⟩ := Option.bind_eq_some_iff.mp hhere
    obtain ⟨hunit, hnode⟩ := Cursor.definition?_mem (definitionHere_eq_some_iff.mp hhere).1
    rw [Cursor.unit_of_simpleCallee hs] at hunit hnode
    exact hunit ▸ ⟨hc, .inl hnode⟩
  | @elsewhere callee d ds hs _ hsay hmem =>
    obtain ⟨p, hp, hres⟩ := hsay
    rw [hr] at hres
    have hl : Task.Ensures (fun _ => True) (r.locate callee) fun found _ =>
      ∀ path, found = some path → True := fun _ _ _ _ _ _ => trivial
    obtain ⟨path, _, loaded, nodes, hfind, hnodes, rfl⟩ :=
      Resolver.resolve_holds hl p trivial _ hres _ rfl
    obtain ⟨node, hnode, rfl⟩ := List.mem_map.mp hmem
    exact ⟨(Resolver.preserves_sees h).resolve callee p hp _ _ hfind,
      (TranslationUnit.has_functionDefinitions hnodes hnode).2⟩

theorem Calls.meets (hr : s.resolve = r.resolve) {p : ProjectState} {step : Step} {c d : Cursor}
    (h : s.Calls (Resolver.Sees (r.visible p step)) c d) (hc : c.unit ∈ r.visible p step) :
    r.Meets p step d := by
  obtain ⟨n, _, _, hx⟩ := h
  obtain ⟨hunit, hhas⟩ := hx.visible hr (fun u => Resolver.mem_visible) hc
  exact ⟨hunit, .inr hhas⟩

theorem within_meets (hr : s.resolve = r.resolve) (p : ProjectState) (step : Step) :
    step.errand.Within s (Resolver.Sees (r.visible p step)) (r.Meets p step) := by
  intro d e hd he
  induction he with
  | refl =>
    cases step with
    | loop c => exact Calls.meets hr hd List.mem_cons_self
    | function c call =>
      cases hd
      exact ⟨List.mem_cons_self, .inl rfl⟩
  | tail _ hcall ih => exact hcall.meets hr ih.1

/-- With as many levels as there are functions to be begun, a step does not run out of them. -/
theorem perform_ne_tooDeep (hr : s.resolve = r.resolve) (step : Step) (st : WalkState ProjectState)
    (hb : (r.candidates st.project step).card ≤ s.bound) :
    ((s.perform step).run st).1 ≠ .error .tooDeep := by
  obtain ⟨es, hruns, _⟩ := tells_perform (keeps_sees hr fun u => Resolver.mem_visible) step st
    (r.sees_visible st.project step)
  have hsay : ∀ callee, ¬ s.Says (Resolver.Sees (r.visible st.project step)) callee
      (.error .tooDeep) := by
    rintro callee ⟨p, _, hres⟩
    rw [hr] at hres
    exact Resolver.avoids_resolve callee p hres
  refine hruns.ne_tooDeep (fun d id hd hid => hd.candidate hid) hsay
    (within_meets hr st.project step) ?_
  exact (Finset.card_filter_le _ _).trans hb

/-- However often functions call each other, within files and across them, a step comes to an end.
Each type that it looks at is stripped to the end, and with at least as many levels of nested walks
as there are functions to be begun, the levels are no bound at all: the step returns or fails in the
same way however many more there are. Where all units are the program's and list their nodes, the
number of these nodes is enough. -/
theorem perform_finishes (hr : s.resolve = r.resolve) (step : Step) (st : WalkState ProjectState)
    (hg : ∀ u ∈ r.visible st.project step, u.Grounded) :
    (∀ u ∈ r.visible st.project step, ∀ t depth,
      (u.stripReferences u.chainBound t).kind.isReference = false ∧
        (u.stripPointers u.chainBound depth t).2.kind ≠ .pointer) ∧
    (∃ outcome, outcome.1 ≠ .error .tooDeep ∧
      ∀ bound, (r.candidates st.project step).card ≤ bound →
        ({ s with bound := bound }.perform step).run st = outcome) ∧
    ((∀ u ∈ r.visible st.project step, u ∈ r.frontEnd.program.units ∧ u.Listed) →
      step.root.unit.Has step.root.node →
      (r.candidates st.project step).card ≤ r.frontEnd.program.nodeCount) := by
  refine ⟨fun u hu t depth => ?_, ?_, Resolver.card_candidates_le⟩
  · have hend := TranslationUnit.iterate_chainBound (hg u hu) t
    exact ⟨TranslationUnit.stripReferences_stops hend, TranslationUnit.stripPointers_stops hend⟩
  · have hne := perform_ne_tooDeep (s := { s with bound := (r.candidates st.project step).card }) hr
      step st le_rfl
    exact ⟨_, hne, fun bound hle => extends_perform hle step st hne⟩

end LoopSearch

namespace Sample

open LoopSearch

theorem grounded : unit.Grounded :=
  TranslationUnit.grounded_of_descending (by decide)

theorem listed : unit.Listed := by
  intro n hn
  have hmem : n ∈ tree.listed := Node.contains_iff_mem_listed.mp hn
  exact ⟨n, by simpa [unit] using hmem, rfl⟩

/-- A loop over two functions that call each other: as many levels as there are nodes are enough. -/
theorem overPing_finishes :
    (∀ u ∈ resolver.visible {} (.loop (cursor overPing)), u.Grounded) ∧
      ∃ outcome, outcome.1 ≠ .error .tooDeep ∧
        ∀ bound, resolver.frontEnd.program.nodeCount ≤ bound →
          ({ search with bound := bound }.perform (.loop (cursor overPing))).run { project := {} } =
            outcome := by
  have hvisible : ∀ u ∈ resolver.visible {} (.loop (cursor overPing)), u = unit := by
    have heq : resolver.visible {} (.loop (cursor overPing)) = [unit, unit] := rfl
    simp [heq]
  have hg : ∀ u ∈ resolver.visible {} (.loop (cursor overPing)), u.Grounded :=
    fun u hu => hvisible u hu ▸ grounded
  obtain ⟨_, ⟨outcome, hne, hsame⟩, hcount⟩ :=
    perform_finishes (s := search) rfl (.loop (cursor overPing)) { project := {} } hg
  have hchildren : tree.children =
    .ok [record, ping, pong, leaf, torn, overPing, overLeaf, overTorn, adrift] := rfl
  have hroot : tree.Contains overPing := .under hchildren (by simp) (.self overPing)
  have hle := hcount (fun u hu => hvisible u hu ▸ ⟨List.mem_singleton_self unit, listed⟩)
    (.inr hroot)
  exact ⟨hg, outcome, hne, fun bound hb => hsame bound (hle.trans hb)⟩

end Sample

end NPlusOne
