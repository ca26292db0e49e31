import NPlusOne.Proofs.ResolverOpenings
import NPlusOne.Proofs.SearchDepth

namespace NPlusOne

theorem DeclarationId.exists_of_located {n : Node} (h : n.file?.isSome = true) :
    ∃ id, DeclarationId.of n = .ok id := by
  unfold Node.file? at h
  obtain ⟨place, hplace⟩ := Option.isSome_iff_exists.mp (Option.isSome_map ▸ h)
  exact ⟨_, by rw [DeclarationId.of, hplace]⟩

/-- What is done on an errand. -/
def Errand.task {ρ : Type} [HasLog ρ] (s : LoopSearch ρ) (depth : Nat) :
    Errand → Task (WalkState ρ) Bool
  | .loop c => s.checkLoop c
  | .check definition call => s.checkFunctionDepth depth definition call
  | .walk root _ stack found =>
    s.walk (s.expandCall (s.checkFunctionDepth depth) root.file) root stack found
  | .visit file node =>
    if node.node.kind = .call then s.expandCall (s.checkFunctionDepth depth) file node
    else pure false
  | .checkAll call definitions found =>
    LoopSearch.checkAll (s.checkFunctionDepth depth · (some call)) definitions found

namespace LoopSearch

variable {ρ : Type} [HasLog ρ] {s : LoopSearch ρ} {opens : Cursor → ρ → Node → Prop}
  {n : Nat} {st : WalkState ρ} {e : Failure}

/-- The state in which the body of a function is begun. -/
def begun (st : WalkState ρ) (definition : Cursor) (id : DeclarationId) : WalkState ρ :=
  { HasLog.append ⟨.debug, .memo, s!"Begin traversal: {id.text}"⟩ st with
    memo := (st.memo.begin id).2
    walked := st.walked ++ [definition] }

/-- The nodes that are opened on an errand that is done from a state. What comes later in it is done
from the state that the earlier parts leave, and is not done if one of them fails. -/
inductive Opens (s : LoopSearch ρ) (opens : Cursor → ρ → Node → Prop) :
    (depth : Nat) → Errand → WalkState ρ → Node → Prop
  | loop {n st loop file y} : n = s.bound → loop.node.file? = some file →
    Opens s opens n (.walk (loopRoot loop file) loop.node [loop.node] false)
      { st with walked := st.walked ++ [loop] } y →
    Opens s opens n (.loop loop) st y
  | body {n st d call id y} : DeclarationId.of d.node = .ok id →
    st.memo.standing id = .unvisited →
    Opens s opens n (.walk (functionRoot d call id) d.node [d.node] false) (begun st d id) y →
    Opens s opens (n + 1) (.check d call) st y
  | noted {n st st' root body x rest found y} : s.isQueryUse root.unit x = true →
    root.function = none → (s.report (root.target <|> some x)).run st = (.ok (), st') →
    Opens s opens n (.walk root body rest true) st' y →
    Opens s opens n (.walk root body (x :: rest) found) st y
  | visited {n st root body x rest found y} : s.isQueryUse root.unit x = false →
    Opens s opens n (.visit root.file ⟨root.unit, x⟩) st y →
    Opens s opens n (.walk root body (x :: rest) found) st y
  | node {n st st' root body x rest found reached} : s.isQueryUse root.unit x = false →
    (Errand.task s n (.visit root.file ⟨root.unit, x⟩)).run st = (.ok reached, st') →
    Opens s opens n (.walk root body (x :: rest) found) st x
  | passed {n st st' root body x xs rest found reached y} : s.isQueryUse root.unit x = false →
    (Errand.task s n (.visit root.file ⟨root.unit, x⟩)).run st = (.ok reached, st') →
    x.children = .ok xs →
    Opens s opens n (.walk root body (xs ++ rest) (found || reached)) st' y →
    Opens s opens n (.walk root body (x :: rest) found) st y
  | callee {n st file call y} : call.node.kind = .call → call.Inspects y →
    Opens s opens n (.visit file call) st y
  | here {n st file call callee d y} : call.node.kind = .call →
    call.simpleCallee = .ok (some callee) → definitionHere file callee = some d →
    Opens s opens n (.check d (some call.node)) st y → Opens s opens n (.visit file call) st y
  | resolver {n st file call callee y} : call.node.kind = .call →
    call.simpleCallee = .ok (some callee) → definitionHere file callee = none →
    opens callee st.project y → Opens s opens n (.visit file call) st y
  | elsewhere {n st file call callee definitions project y} : call.node.kind = .call →
    call.simpleCallee = .ok (some callee) → definitionHere file callee = none →
    (s.resolve callee).run st.project = (.ok (some definitions), project) →
    Opens s opens n (.checkAll call.node definitions false) { st with project := project } y →
    Opens s opens n (.visit file call) st y
  | first {n st call d ds found y} : Opens s opens n (.check d (some call)) st y →
    Opens s opens n (.checkAll call (d :: ds) found) st y
  | next {n st st' call d ds found reached y} :
    (s.checkFunctionDepth n d (some call)).run st = (.ok reached, st') →
    Opens s opens n (.checkAll call ds (found || reached)) st' y →
    Opens s opens n (.checkAll call (d :: ds) found) st y

/-- The errand ends with a failure, other than that calls nest too deep, exactly if a node that it
opens fails with it. -/
def FailsAsOpened (s : LoopSearch ρ) (opens : Cursor → ρ → Node → Prop) (n : Nat)
    (errand : Errand) : Prop :=
  ∀ st e, e ≠ .tooDeep → (((errand.task s n).run st).1 = .error e ↔
    ∃ y, s.Opens opens n errand st y ∧ y.children = .error e)

/-- The resolver fails exactly if a node that it opens does, and what it finds lies in files. -/
structure Answerable (s : LoopSearch ρ) (opens : Cursor → ρ → Node → Prop) : Prop where
  fails : ∀ callee p e, ((s.resolve callee).run p).1 = .error e ↔
    ∃ y, opens callee p y ∧ y.children = .error e
  located : ∀ callee p definitions, ((s.resolve callee).run p).1 = .ok (some definitions) →
    ∀ d ∈ definitions, d.node.file?.isSome = true

/-- Definitions that are checked in turn fail as the nodes that are opened, if each of them does. -/
theorem failsAsOpened_checkAll
    (hcheck : ∀ d call, d.node.file?.isSome = true → s.FailsAsOpened opens n (.check d call))
    (call : Node) {definitions : List Cursor}
    (hl : ∀ d ∈ definitions, d.node.file?.isSome = true) (found : Bool) :
    s.FailsAsOpened opens n (.checkAll call definitions found) := by
  induction definitions generalizing found with
  | nil =>
    intro st e _
    refine iff_of_false (fun h => by cases h) ?_
    rintro ⟨y, hy, _⟩
    cases hy
  | cons d rest ih =>
    intro st e he
    have hd := hcheck d (some call) (hl d List.mem_cons_self) st e he
    have hrest := fun reached => ih (fun d hd => hl d (List.mem_cons_of_mem _ hd)) reached
    rw [Errand.task, checkAll, Task.bind_fails_iff]
    constructor
    · rintro (h | ⟨reached, st', hrun, h⟩)
      · obtain ⟨y, hy, hye⟩ := hd.mp h
        exact ⟨y, .first hy, hye⟩
      · obtain ⟨y, hy, hye⟩ := (hrest (found || reached) st' e he).mp h
        exact ⟨y, .next hrun hy, hye⟩
    · rintro ⟨y, hy, hye⟩
      cases hy with
      | first hy => exact .inl (hd.mpr ⟨y, hy, hye⟩)
      | next hrun hy => exact .inr ⟨_, _, hrun, (hrest _ _ e he).mpr ⟨y, hy, hye⟩⟩

section Visit

variable {file : String} {call callee : Cursor}

theorem failsAsOpened_misread {e' : Failure} (hc : call.node.kind = .call)
    (hs : call.simpleCallee = .error e') : s.FailsAsOpened opens n (.visit file call) := by
  intro st e _
  have hrun : (s.expandCall (s.checkFunctionDepth n) file call).run st = (.error e', st) := by
    unfold expandCall
    rw [hs]
    rfl
  rw [Errand.task, if_pos hc, hrun]
  constructor
  · rintro ⟨⟩
    obtain ⟨y, hy, hye⟩ := Cursor.simpleCallee_fails_iff.mp hs
    exact ⟨y, .callee hc hy, hye⟩
  · rintro ⟨y, hy, hye⟩
    cases hy with
    | callee _ hy =>
      cases hs.symm.trans (Cursor.simpleCallee_fails_iff.mpr ⟨y, hy, hye⟩)
      rfl
    | here _ hs' | resolver _ hs' | elsewhere _ hs' => cases hs.symm.trans hs'

theorem failsAsOpened_unnamed (hc : call.node.kind = .call) (hs : call.simpleCallee = .ok none) :
    s.FailsAsOpened opens n (.visit file call) := by
  intro st e _
  have heq : s.expandCall (s.checkFunctionDepth n) file call = pure false := by
    unfold expandCall
    rw [hs]
    rfl
  rw [Errand.task, if_pos hc, heq]
  refine iff_of_false (fun h => by cases h) ?_
  rintro ⟨y, hy, hye⟩
  cases hy with
  | callee _ hy => exact hy.ne_error hs hye
  | here _ hs' | resolver _ hs' | elsewhere _ hs' => cases hs.symm.trans hs'

theorem failsAsOpened_here {d : Cursor} (hc : call.node.kind = .call)
    (hs : call.simpleCallee = .ok (some callee)) (hd : definitionHere file callee = some d)
    (hcheck : s.FailsAsOpened opens n (.check d (some call.node))) :
    s.FailsAsOpened opens n (.visit file call) := by
  intro st e he
  rw [Errand.task, if_pos hc, expandCall_here s _ hs hd]
  constructor
  · intro h
    obtain ⟨y, hy, hye⟩ := (hcheck st e he).mp h
    exact ⟨y, .here hc hs hd hy, hye⟩
  · rintro ⟨y, hy, hye⟩
    cases hy with
    | callee _ hy => exact absurd hye (hy.ne_error hs)
    | here _ hs' hd' hy =>
      cases hs.symm.trans hs'
      cases hd.symm.trans hd'
      exact (hcheck st e he).mpr ⟨y, hy, hye⟩
    | resolver _ hs' hd' | elsewhere _ hs' hd' =>
      cases hs.symm.trans hs'
      cases hd.symm.trans hd'

/-- Behind a callee that is defined elsewhere, the resolver fails or one of the checks does. -/
theorem failsAsOpened_elsewhere (ha : s.Answerable opens) (hc : call.node.kind = .call)
    (hs : call.simpleCallee = .ok (some callee)) (hd : definitionHere file callee = none)
    (hall : ∀ definitions : List Cursor, (∀ d ∈ definitions, d.node.file?.isSome = true) →
      s.FailsAsOpened opens n (.checkAll call.node definitions false)) :
    s.FailsAsOpened opens n (.visit file call) := by
  intro st e he
  rw [Errand.task, if_pos hc, expandCall_elsewhere s _ hs hd, Task.bind_fails_iff,
    Task.run_within, ha.fails]
  constructor
  · rintro (⟨y, hy, hye⟩ | ⟨found, st', hrun, h⟩)
    · exact ⟨y, .resolver hc hs hd hy, hye⟩
    · obtain ⟨hres, rfl⟩ := Prod.mk.inj hrun
      cases found with
      | none => cases h
      | some definitions =>
        obtain ⟨y, hy, hye⟩ := (hall _ (ha.located _ _ _ hres) _ e he).mp h
        exact ⟨y, .elsewhere hc hs hd (Prod.ext hres rfl) hy, hye⟩
  · rintro ⟨y, hy, hye⟩
    cases hy with
    | callee _ hy => exact absurd hye (hy.ne_error hs)
    | here _ hs' hd' =>
      cases hs.symm.trans hs'
      cases hd.symm.trans hd'
    | resolver _ hs' _ hy =>
      cases hs.symm.trans hs'
      exact .inl ⟨y, hy, hye⟩
    | @elsewhere _ _ _ _ _ definitions project _ _ hs' _ hres hy =>
      cases hs.symm.trans hs'
      have hlocated := ha.located _ _ _ (congrArg Prod.fst hres)
      refine .inr ⟨some definitions, { st with project := project }, ?_,
        (hall _ hlocated _ e he).mpr ⟨y, hy, hye⟩⟩
      rw [hres]

theorem failsAsOpened_visit (ha : s.Answerable opens)
    (hcheck : ∀ d call, d.node.file?.isSome = true → s.FailsAsOpened opens n (.check d call))
    (file : String) (call : Cursor) : s.FailsAsOpened opens n (.visit file call) := by
  by_cases hc : call.node.kind = .call
  · cases hs : call.simpleCallee with
    | error e => exact failsAsOpened_misread hc hs
    | ok callee? =>
      cases callee? with
      | none => exact failsAsOpened_unnamed hc hs
      | some callee =>
        cases hd : definitionHere file callee with
        | some d =>
          have hlocated : d.node.file?.isSome = true := by
            simp [(definitionHere_eq_some_iff.mp hd).2]
          exact failsAsOpened_here hc hs hd (hcheck d _ hlocated)
        | none =>
          exact failsAsOpened_elsewhere ha hc hs hd fun definitions hl =>
            failsAsOpened_checkAll hcheck call.node hl false
  · intro st e _
    rw [Errand.task, if_neg hc]
    refine iff_of_false (fun h => by cases h) ?_
    rintro ⟨y, hy, _⟩
    cases hy with
    | callee hc' | here hc' | resolver hc' | elsewhere hc' => exact hc hc'

end Visit

theorem exists_run_report (s : LoopSearch ρ) (st : WalkState ρ) (target : Option Node) :
    ∃ st', (s.report target).run st = (.ok (), st') := by
  unfold report
  cases target.bind (Report.atNode? · s.message) with
  | none => exact ⟨_, rfl⟩
  | some r => cases s.announce <;> exact ⟨_, rfl⟩

section Walk

variable {root : WalkRoot} {body x : Node} {rest : List Node} {found : Bool}

/-- A function is done with its first query use; a loop goes on behind it. -/
theorem failsAsOpened_use (hu : s.isQueryUse root.unit x = true)
    (hrest : s.FailsAsOpened opens n (.walk root body rest true)) :
    s.FailsAsOpened opens n (.walk root body (x :: rest) found) := by
  intro st e he
  obtain ⟨st', hrun⟩ := s.exists_run_report st (root.target <|> some x)
  rw [Errand.task, walk.eq_2, if_pos hu, Task.run_bind_ok hrun]
  cases hfun : root.function with
  | some id =>
    refine iff_of_false (fun h => by cases h) ?_
    rintro ⟨y, hy, _⟩
    cases hy with
    | noted _ hfun' => cases hfun.symm.trans hfun'
    | visited hu' | node hu' | passed hu' => cases hu.symm.trans hu'
  | none =>
    constructor
    · intro h
      obtain ⟨y, hy, hye⟩ := (hrest st' e he).mp h
      exact ⟨y, .noted hu hfun hrun hy, hye⟩
    · rintro ⟨y, hy, hye⟩
      cases hy with
      | noted _ _ hrun' hy =>
        cases hrun.symm.trans hrun'
        exact (hrest st' e he).mpr ⟨y, hy, hye⟩
      | visited hu' | node hu' | passed hu' => cases hu.symm.trans hu'

theorem failsAsOpened_passed (hu : s.isQueryUse root.unit x = false)
    (hvisit : s.FailsAsOpened opens n (.visit root.file ⟨root.unit, x⟩))
    (hrest : ∀ (reached : Bool) (xs : List Node), x.children = .ok xs →
      s.FailsAsOpened opens n (.walk root body (xs ++ rest) (found || reached))) :
    s.FailsAsOpened opens n (.walk root body (x :: rest) found) := by
  intro st e he
  rw [Errand.task, walk_cons_of_not_use s _ hu, Task.bind_fails_iff]
  constructor
  · rintro (h | ⟨reached, st', hrun, h⟩)
    · obtain ⟨y, hy, hye⟩ := (hvisit st e he).mp h
      exact ⟨y, .visited hu hy, hye⟩
    · cases hc : x.children with
      | error e' =>
        rw [hc] at h
        cases h
        exact ⟨x, .node hu hrun, hc⟩
      | ok xs =>
        rw [hc] at h
        obtain ⟨y, hy, hye⟩ := (hrest reached xs hc st' e he).mp h
        exact ⟨y, .passed hu hrun hc hy, hye⟩
  · rintro ⟨y, hy, hye⟩
    cases hy with
    | noted hu' => cases hu.symm.trans hu'
    | visited _ hy => exact .inl ((hvisit st e he).mpr ⟨y, hy, hye⟩)
    | node _ hrun =>
      refine .inr ⟨_, _, hrun, ?_⟩
      rw [hye]
      rfl
    | passed _ hrun hc hy =>
      refine .inr ⟨_, _, hrun, ?_⟩
      rw [hc]
      exact (hrest _ _ hc _ e he).mpr ⟨y, hy, hye⟩

end Walk

theorem failsAsOpened_walk (root : WalkRoot)
    (hvisit : ∀ x, s.FailsAsOpened opens n (.visit root.file ⟨root.unit, x⟩))
    (body : Node) (stack : List Node) (found : Bool) :
    s.FailsAsOpened opens n (.walk root body stack found) := by
  induction stack, found using walk.induct s
    (s.expandCall (s.checkFunctionDepth n) root.file) root with
  | case1 found =>
    intro st e _
    rw [Errand.task, walk.eq_1]
    refine iff_of_false (fun h => by cases h) ?_
    rintro ⟨y, hy, _⟩
    cases hy
  | case2 x rest found hu ih => exact failsAsOpened_use hu ih
  | case3 x rest found hu _ ih | case4 x rest found hu _ ih =>
    exact failsAsOpened_passed (by simpa using hu) (hvisit x) ih

theorem enter_known_ne_error {d : Cursor} {id : DeclarationId}
    (h : DeclarationId.of d.node = .ok id) (hv : st.memo.standing id ≠ .unvisited)
    (call : Option Node) (body : DeclarationId → Task (WalkState ρ) Bool) :
    ((s.enter d call body).run st).1 ≠ .error e := by
  rw [enter_known h hv]
  cases st.memo.verdictOf id with
  | false => exact fun hno => by cases hno
  | true =>
    obtain ⟨st', hrun⟩ := s.exists_run_report st call
    rw [if_pos rfl, Task.run_bind_ok hrun]
    exact fun hno => by cases hno

/-- The check of a function that lies in a file fails as the nodes that it opens. -/
theorem failsAsOpened_check (ha : s.Answerable opens) (d : Cursor) (call : Option Node)
    (hd : d.node.file?.isSome = true) : s.FailsAsOpened opens n (.check d call) := by
  induction n generalizing d call with
  | zero =>
    intro st e he
    obtain ⟨id, hid⟩ := DeclarationId.exists_of_located hd
    rw [Errand.task, checkFunctionDepth]
    refine iff_of_false (fun h => ?_) ?_
    · by_cases hv : st.memo.standing id = .unvisited
      · rw [run_enter_fresh hid hv] at h
        cases h
        exact he rfl
      · exact enter_known_ne_error hid hv _ _ h
    · rintro ⟨y, hy, _⟩
      cases hy
  | succ n ih =>
    intro st e he
    obtain ⟨id, hid⟩ := DeclarationId.exists_of_located hd
    have hbody := failsAsOpened_walk (functionRoot d call id)
      (fun x => failsAsOpened_visit ha ih id.file ⟨d.unit, x⟩)
      d.node [d.node] false (begun st d id) e he
    rw [Errand.task, checkFunctionDepth]
    by_cases hv : st.memo.standing id = .unvisited
    · rw [run_enter_fresh hid hv, Task.bind_fails_iff]
      constructor
      · rintro (h | ⟨_, _, _, hno⟩)
        · obtain ⟨y, hy, hye⟩ := hbody.mp h
          exact ⟨y, .body hid hv hy, hye⟩
        · cases hno
      · rintro ⟨y, hy, hye⟩
        cases hy with
        | body hid' _ hy =>
          cases hid.symm.trans hid'
          exact .inl (hbody.mpr ⟨y, hy, hye⟩)
    · refine iff_of_false (enter_known_ne_error hid hv _ _) ?_
      rintro ⟨y, hy, _⟩
      cases hy with
      | body hid' hv' =>
        cases hid.symm.trans hid'
        exact hv hv'

theorem failsAsOpened_loop (ha : s.Answerable opens) (hn : n = s.bound) (loop : Cursor) :
    s.FailsAsOpened opens n (.loop loop) := by
  intro st e he
  rw [Errand.task]
  cases hfile : loop.node.file? with
  | none =>
    refine iff_of_false (fun h => ?_) ?_
    · unfold checkLoop at h
      rw [hfile] at h
      cases h
    · rintro ⟨y, hy, _⟩
      cases hy with
      | loop _ hfile' => cases hfile.symm.trans hfile'
  | some file =>
    have hrun : (s.checkLoop loop).run st =
        (Errand.task s n (.walk (loopRoot loop file) loop.node [loop.node] false)).run
          { st with walked := st.walked ++ [loop] } := by
      unfold checkLoop
      rw [hfile, hn]
      rfl
    have hbody := failsAsOpened_walk (n := n) (loopRoot loop file)
      (fun x => failsAsOpened_visit ha (failsAsOpened_check ha) file ⟨loop.unit, x⟩)
      loop.node [loop.node] false
    rw [hrun, hbody _ e he]
    constructor
    · rintro ⟨y, hy, hye⟩
      exact ⟨y, .loop hn hfile hy, hye⟩
    · rintro ⟨y, hy, hye⟩
      cases hy with
      | loop _ hfile' hy =>
        cases hfile.symm.trans hfile'
        exact ⟨y, hy, hye⟩

variable {r : Resolver}

theorem answerable {s : LoopSearch ProjectState} (hr : s.resolve = r.resolve)
    (ho : r.frontEnd.options.Usable) : s.Answerable r.Opens where
  fails callee p e := by
    rw [hr]
    exact Resolver.resolve_fails_iff ho
  located callee p definitions h d hd := by
    rw [hr] at h
    exact Resolver.located_of_resolve h hd

/-- A loop fails to be checked exactly if the children of a node that is opened on the way cannot be
listed, and then for the same reason. That another file does not parse is never the reason, and no
function is entered that lies in no file. -/
theorem checkLoop_fails_iff {s : LoopSearch ProjectState} (hr : s.resolve = r.resolve)
    (ho : r.frontEnd.options.Usable) (loop : Cursor) (st : WalkState ProjectState)
    (hb : (r.candidates st.project (.loop loop)).card ≤ s.bound) :
    (∀ e, ((s.checkLoop loop).run st).1 = .error e ↔
      ∃ y, s.Opens r.Opens s.bound (.loop loop) st y ∧ y.children = .error e) ∧
    (∀ error, ((s.checkLoop loop).run st).1 ≠ .error (.parse error)) ∧
    ∀ spelling, ((s.checkLoop loop).run st).1 ≠ .error (.unlocated spelling) := by
  have hfails : ∀ e, ((s.checkLoop loop).run st).1 = .error e ↔
      ∃ y, s.Opens r.Opens s.bound (.loop loop) st y ∧ y.children = .error e := by
    intro e
    by_cases he : e = .tooDeep
    · subst he
      refine iff_of_false (perform_ne_tooDeep hr (.loop loop) st hb) ?_
      rintro ⟨y, _, hye⟩
      exact Node.children_ne_error (by simp) hye
    · exact failsAsOpened_loop (answerable hr ho) rfl loop st e he
  refine ⟨hfails, fun error h => ?_, fun spelling h => ?_⟩
  · obtain ⟨y, _, hye⟩ := (hfails _).mp h
    exact Node.children_ne_error (by simp) hye
  · obtain ⟨y, _, hye⟩ := (hfails _).mp h
    exact Node.children_ne_error (by simp) hye

end LoopSearch

namespace Sample

/-- A search with as many levels as the program has nodes. -/
def deepSearch : LoopSearch ProjectState :=
  { search with bound := resolver.frontEnd.program.nodeCount }

theorem overTorn_fails_as_opened :
    (resolver.candidates {} (.loop (cursor overTorn))).card ≤ deepSearch.bound ∧
      ((deepSearch.checkLoop (cursor overTorn)).run { project := {} }).1 =
        .error (.children "torn") ∧
      ∃ y, deepSearch.Opens resolver.Opens deepSearch.bound (.loop (cursor overTorn))
        { project := {} } y ∧ y.children = .error (.children "torn") := by
  have husable : resolver.frontEnd.options.Usable := fun path => ⟨_, rfl⟩
  have hvisible : ∀ u ∈ resolver.visible {} (.loop (cursor overTorn)), u = unit := by
    have heq : resolver.visible {} (.loop (cursor overTorn)) = [unit, unit] := rfl
    simp [heq]
  have hchildren : tree.children =
    .ok [record, ping, pong, leaf, torn, overPing, overLeaf, overTorn, adrift] := rfl
  have hroot : tree.Contains overTorn := .under hchildren (by simp) (.self overTorn)
  have hcount : (resolver.candidates {} (.loop (cursor overTorn))).card ≤ deepSearch.bound :=
    Resolver.card_candidates_le
      (fun u hu => hvisible u hu ▸ ⟨List.mem_singleton_self unit, listed⟩) (.inr hroot)
  have hrun : ((deepSearch.checkLoop (cursor overTorn)).run { project := {} }).1 =
      .error (.children "torn") := by
    decide +kernel
  have hfails := LoopSearch.checkLoop_fails_iff rfl husable (cursor overTorn)
    { project := {} } hcount
  exact ⟨hcount, hrun, (hfails.1 _).mp hrun⟩

end Sample

end NPlusOne
