import NPlusOne.Proofs.SearchTrace

namespace NPlusOne

/-- The warning that takes the place of a report at a node that lies in no file. -/
def Report.skipped : Log.Entry :=
  ⟨.warning, .walk, "Report target has no source location; report skipped"⟩

namespace LoopSearch

variable {ρ : Type} {s : LoopSearch ρ} {holds : ρ → Prop}

/-- The second state is the first one after the events. -/
structure Follows (s : LoopSearch ρ) (holds : ρ → Prop) (st : WalkState ρ) (es : List Event)
    (st' : WalkState ρ) : Prop where
  memo : st'.memo = st.memo.replay es
  reports : st'.reports = st.reports ++ es.filterMap (Event.report? s.message)
  walked : st'.walked = st.walked ++ es.filterMap Event.walked?
  project : holds st.project → holds st'.project

theorem Follows.refl (st : WalkState ρ) : s.Follows holds st [] st :=
  ⟨rfl, by simp, by simp, id⟩

theorem Follows.trans {st st' st'' : WalkState ρ} {es fs : List Event}
    (h : s.Follows holds st es st') (h' : s.Follows holds st' fs st'') :
    s.Follows holds st (es ++ fs) st'' where
  memo := by rw [h'.memo, h.memo, Memo.replay_append]
  reports := by rw [h'.reports, h.reports, List.filterMap_append, List.append_assoc]
  walked := by rw [h'.walked, h.walked, List.filterMap_append, List.append_assoc]
  project := fun hp => h'.project (h.project hp)

/-- Every run of the task is the errand's: its outcome and its changes are told by events. -/
def Tells (s : LoopSearch ρ) (holds : ρ → Prop) (depth : Nat) (errand : Errand)
    (task : Task (WalkState ρ) Bool) : Prop :=
  ∀ st, holds st.project → ∃ es, s.Runs holds depth errand st.memo es (task.run st).1 ∧
    s.Follows holds st es (task.run st).2

/-- The second state is the first one after the events, and the resolver's state has changed as the
tale says of the targets at which reports were tried. -/
structure Accounts (s : LoopSearch ρ) (holds : ρ → Prop) (tale : ρ → List (Option Node) → ρ → Prop)
    (st : WalkState ρ) (es : List Event) (st' : WalkState ρ) : Prop
    extends s.Follows holds st es st' where
  told : tale st.project (es.filterMap Event.target?) st'.project

def Recounts (s : LoopSearch ρ) (holds : ρ → Prop) (tale : ρ → List (Option Node) → ρ → Prop)
    (depth : Nat) (errand : Errand) (task : Task (WalkState ρ) Bool) : Prop :=
  ∀ st, holds st.project → ∃ es, s.Runs holds depth errand st.memo es (task.run st).1 ∧
    s.Accounts holds tale st es (task.run st).2

variable {tale : ρ → List (Option Node) → ρ → Prop}

theorem Recounts.tells {depth : Nat} {errand : Errand} {task : Task (WalkState ρ) Bool}
    (h : s.Recounts holds tale depth errand task) : s.Tells holds depth errand task := by
  intro st hp
  obtain ⟨es, hr, hf⟩ := h st hp
  exact ⟨es, hr, hf.toFollows⟩

theorem definitionHere_eq_some_iff {file : String} {callee d : Cursor} :
    definitionHere file callee = some d ↔
      callee.definition? = some d ∧ d.node.file? = some file := by
  simp [definitionHere, Option.filter_eq_some_iff]

theorem expandCall_here (s : LoopSearch ρ) (check : Cursor → Option Node → Task (WalkState ρ) Bool)
    {file : String} {call callee d : Cursor} (h : call.simpleCallee = .ok (some callee))
    (hd : definitionHere file callee = some d) :
    s.expandCall check file call = check d (some call.node) := by
  obtain ⟨hdef, hfile⟩ := definitionHere_eq_some_iff.mp hd
  unfold expandCall
  rw [h, Task.ofExcept_ok_bind]
  simp only [hdef, hfile, ↓reduceIte]

theorem expandCall_elsewhere (s : LoopSearch ρ)
    (check : Cursor → Option Node → Task (WalkState ρ) Bool) {file : String}
    {call callee : Cursor} (h : call.simpleCallee = .ok (some callee))
    (hd : definitionHere file callee = none) :
    s.expandCall check file call =
      Task.within WalkState.project (fun p st => { st with project := p }) (s.resolve callee) >>=
        fun found => found.elim (pure false)
          fun definitions => checkAll (check · (some call.node)) definitions false := by
  unfold expandCall
  rw [h, Task.ofExcept_ok_bind]
  cases hdef : callee.definition? with
  | none =>
    simp only [hdef]
    refine bind_congr fun found => ?_
    cases found <;> rfl
  | some d =>
    have hfile : d.node.file? ≠ some file := by
      intro hfile
      simp [definitionHere_eq_some_iff.mpr ⟨hdef, hfile⟩] at hd
    simp only [hdef, hfile, ↓reduceIte]
    refine bind_congr fun found => ?_
    cases found <;> rfl

variable [HasLog ρ]

/-- The tale knows what a search does to the resolver's state: it asks questions, writes to the log,
and skips a report with a warning where the target lies in no file. -/
structure Tracks (s : LoopSearch ρ) (holds : ρ → Prop) (tale : ρ → List (Option Node) → ρ → Prop) :
    Prop extends s.Keeps holds where
  refl : ∀ p, tale p [] p
  trans : ∀ {p q r targets others}, tale p targets q → tale q others r →
    tale p (targets ++ others) r
  kept : ∀ {target : Option Node} p, (target.bind (Report.atNode? · s.message)).isSome →
    tale p [target] p
  skipped : ∀ {target : Option Node} p, (target.bind (Report.atNode? · s.message)) = none →
    tale p [target] (HasLog.append Report.skipped p)
  asked : ∀ callee p, tale p [] ((s.resolve callee).run p).2
  logged : ∀ {entry} p, entry ≠ Report.skipped → tale p [] (HasLog.append entry p)

/-- Nothing needs to be told. -/
theorem Keeps.tracks (hk : s.Keeps holds) : s.Tracks holds fun _ _ _ => True where
  toKeeps := hk
  refl _ := trivial
  trans _ _ := trivial
  kept _ _ := trivial
  skipped _ _ := trivial
  asked _ _ := trivial
  logged _ _ := trivial

theorem Accounts.refl (ht : s.Tracks holds tale) (st : WalkState ρ) :
    s.Accounts holds tale st [] st :=
  ⟨.refl st, ht.refl st.project⟩

theorem Accounts.trans (ht : s.Tracks holds tale) {st st' st'' : WalkState ρ} {es fs : List Event}
    (h : s.Accounts holds tale st es st') (h' : s.Accounts holds tale st' fs st'') :
    s.Accounts holds tale st (es ++ fs) st'' where
  toFollows := h.toFollows.trans h'.toFollows
  told := by
    rw [List.filterMap_append]
    exact ht.trans h.told h'.told

theorem Accounts.began (ht : s.Tracks holds tale) (st : WalkState ρ) (d : Cursor)
    (id : DeclarationId) :
    s.Accounts holds tale st [.began d id] { st with memo := (st.memo.begin id).2 } :=
  ⟨⟨rfl, by simp [Event.report?], by simp [Event.walked?], fun hp => hp⟩, ht.refl st.project⟩

theorem Accounts.walked_body (ht : s.Tracks holds tale) (st : WalkState ρ) (body : Cursor) :
    s.Accounts holds tale st [.walked body] { st with walked := st.walked ++ [body] } :=
  ⟨⟨rfl, by simp [Event.report?], by simp [Event.walked?], fun hp => hp⟩, ht.refl st.project⟩

theorem Accounts.recorded (ht : s.Tracks holds tale) (st : WalkState ρ) (id : DeclarationId)
    (verdict : Bool) :
    s.Accounts holds tale st [.recorded id verdict]
      { st with memo := st.memo.record id verdict } :=
  ⟨⟨rfl, by simp [Event.report?], by simp [Event.walked?], fun hp => hp⟩, ht.refl st.project⟩

theorem Accounts.log (ht : s.Tracks holds tale) (st : WalkState ρ) {entry : Log.Entry}
    (h : entry ≠ Report.skipped) : s.Accounts holds tale st [] (HasLog.append entry st) :=
  ⟨⟨rfl, by simp [HasLog.append], by simp [HasLog.append], ht.append entry st.project⟩,
    ht.logged st.project h⟩

theorem recounts_pure (ht : s.Tracks holds tale) {depth : Nat} {errand : Errand} {b : Bool}
    (h : ∀ m, s.Runs holds depth errand m [] (.ok b)) :
    s.Recounts holds tale depth errand (pure b) :=
  fun st _ => ⟨[], h st.memo, Accounts.refl ht st⟩

theorem recounts_checkAll (ht : s.Tracks holds tale) {depth : Nat}
    {check : Cursor → Option Node → Task (WalkState ρ) Bool}
    (hcheck : ∀ d call, s.Recounts holds tale depth (.check d call) (check d call))
    (call : Node) (definitions : List Cursor) (found : Bool) :
    s.Recounts holds tale depth (.checkAll call definitions found)
      (checkAll (check · (some call)) definitions found) := by
  induction definitions generalizing found with
  | nil => exact recounts_pure ht fun m => .done
  | cons d rest ih =>
    intro st hp
    obtain ⟨es, hr, hf⟩ := hcheck d (some call) st hp
    rw [checkAll]
    rcases hv : (check d (some call)).run st with ⟨e | reached, st'⟩
    · rw [Task.run_bind_error hv]
      rw [hv] at hr hf
      exact ⟨es, .failed hr, hf⟩
    · rw [Task.run_bind_ok hv]
      rw [hv] at hr hf
      obtain ⟨fs, hr', hf'⟩ := ih (found || reached) st' (hf.project hp)
      rw [hf.memo] at hr'
      exact ⟨es ++ fs, .next hr hr', hf.trans ht hf'⟩

theorem run_report (ht : s.Tracks holds tale) (st : WalkState ρ) (target : Option Node)
    (about : Cursor) : ∃ st', (s.report target).run st = (.ok (), st') ∧
      s.Accounts holds tale st [.reported target about] st' := by
  unfold report
  cases htarget : target.bind (Report.atNode? · s.message) with
  | none =>
    refine ⟨_, rfl, ⟨?_, ?_, ?_, ?_⟩, ?_⟩
    · rfl
    · simp [Event.report?, htarget, HasLog.append]
    · simp [Event.walked?, HasLog.append]
    · exact ht.append _ st.project
    · exact ht.skipped st.project htarget
  | some r =>
    have hkept : tale st.project [target] st.project := ht.kept st.project (by simp [htarget])
    cases ha : s.announce with
    | false =>
      refine ⟨_, rfl, ⟨?_, ?_, ?_, ?_⟩, ?_⟩
      · rfl
      · simp [Event.report?, htarget]
      · simp [Event.walked?]
      · exact fun hp => hp
      · exact hkept
    | true =>
      have hlog : (⟨.debug, .command, s!"Report: {r.text}"⟩ : Log.Entry) ≠ Report.skipped := by
        simp [Report.skipped]
      refine ⟨_, rfl, ⟨?_, ?_, ?_, ?_⟩, ?_⟩
      · rfl
      · simp [Event.report?, htarget, HasLog.append]
      · simp [Event.walked?, HasLog.append]
      · exact ht.append _ st.project
      · exact ht.trans (ht.logged st.project hlog) (ht.kept _ (by simp [htarget]))

theorem walk_cons_of_not_use (s : LoopSearch ρ) (expand : Cursor → Task (WalkState ρ) Bool)
    {root : WalkRoot} {n : Node} (h : s.isQueryUse root.unit n = false) (rest : List Node)
    (found : Bool) :
    s.walk expand root (n :: rest) found =
      (if n.kind = .call then expand ⟨root.unit, n⟩ else pure false) >>= fun reached =>
        match n.children with
        | .error e => throw e
        | .ok children => s.walk expand root (children ++ rest) (found || reached) := by
  rw [walk.eq_2]
  simp only [h, Bool.false_eq_true, ↓reduceIte]
  generalize n.children = children
  split <;> cases children <;> rfl

theorem recounts_walk_passed (ht : s.Tracks holds tale) {depth : Nat}
    {expand : Cursor → Task (WalkState ρ) Bool} {root : WalkRoot} {body n : Node}
    {rest : List Node} {found : Bool} (hu : s.isQueryUse root.unit n = false)
    (hexpand : n.kind = .call →
      s.Recounts holds tale depth (.visit root.file ⟨root.unit, n⟩) (expand ⟨root.unit, n⟩))
    (hrest : ∀ (reached : Bool) (children : List Node), n.children = .ok children →
      s.Recounts holds tale depth (.walk root body (children ++ rest) (found || reached))
        (s.walk expand root (children ++ rest) (found || reached))) :
    s.Recounts holds tale depth (.walk root body (n :: rest) found)
      (s.walk expand root (n :: rest) found) := by
  intro st hp
  have hvisit : s.Recounts holds tale depth (.visit root.file ⟨root.unit, n⟩)
      (if n.kind = .call then expand ⟨root.unit, n⟩ else pure false) := by
    split
    next hc => exact hexpand hc
    next hc => exact recounts_pure ht fun m => .skipped hc
  rw [walk_cons_of_not_use s expand hu]
  obtain ⟨es, hr, hf⟩ := hvisit st hp
  rcases hv : (if n.kind = .call then expand ⟨root.unit, n⟩ else pure false :
    Task (WalkState ρ) Bool).run st with ⟨e | reached, st'⟩
  · rw [Task.run_bind_error hv]
    rw [hv] at hr hf
    exact ⟨es, .halted hu hr, hf⟩
  · rw [Task.run_bind_ok hv]
    rw [hv] at hr hf
    cases hc : n.children with
    | error e => exact ⟨es, .closed hu hr hc, hf⟩
    | ok children =>
      obtain ⟨fs, hr', hf'⟩ := hrest reached children hc st' (hf.project hp)
      rw [hf.memo] at hr'
      exact ⟨es ++ fs, .passed hu hr hc hr', hf.trans ht hf'⟩

theorem recounts_walk (ht : s.Tracks holds tale) {depth : Nat}
    {expand : Cursor → Task (WalkState ρ) Bool} {root : WalkRoot} (body : Node)
    (hexpand : ∀ n : Node, n.kind = .call →
      s.Recounts holds tale depth (.visit root.file ⟨root.unit, n⟩) (expand ⟨root.unit, n⟩))
    (stack : List Node) (found : Bool) :
    s.Recounts holds tale depth (.walk root body stack found)
      (s.walk expand root stack found) := by
  induction stack, found using walk.induct s expand root with
  | case1 found =>
    rw [walk.eq_1]
    exact recounts_pure ht fun m => .emptied
  | case2 n rest found hu ih =>
    intro st hp
    obtain ⟨st', hrun, hf⟩ := run_report ht st (root.target <|> some n) ⟨root.unit, body⟩
    rw [walk.eq_2, if_pos hu, Task.run_bind_ok hrun]
    cases hfun : root.function with
    | some id => exact ⟨_, .settled hu hfun, hf.trans ht (Accounts.recorded ht st' id true)⟩
    | none =>
      obtain ⟨es, hr, hf'⟩ := ih st' (hf.project hp)
      have hm : st'.memo = st.memo := hf.memo
      rw [hm] at hr
      exact ⟨_, .noted hu hfun hr, hf.trans ht hf'⟩
  | case3 n rest found hu _ ih | case4 n rest found hu _ ih =>
    exact recounts_walk_passed ht (by simpa using hu) (hexpand n) ih

/-- Expanding a call recounts a visit of it, if the check of a function recounts a check. -/
theorem recounts_expandCall (ht : s.Tracks holds tale) {depth : Nat}
    {check : Cursor → Option Node → Task (WalkState ρ) Bool}
    (hcheck : ∀ d call, s.Recounts holds tale depth (.check d call) (check d call))
    (file : String) {call : Cursor} (hc : call.node.kind = .call) :
    s.Recounts holds tale depth (.visit file call) (s.expandCall check file call) := by
  cases hs : call.simpleCallee with
  | error e =>
    intro st _
    have hrun : (s.expandCall check file call).run st = (.error e, st) := by
      unfold expandCall
      rw [hs]
      rfl
    rw [hrun]
    exact ⟨[], .misread hc hs, Accounts.refl ht st⟩
  | ok callee? =>
    cases callee? with
    | none =>
      have heq : s.expandCall check file call = pure false := by
        unfold expandCall
        rw [hs]
        rfl
      rw [heq]
      exact recounts_pure ht fun m => .unnamed hc hs
    | some callee =>
      cases hd : definitionHere file callee with
      | some d =>
        intro st hp
        rw [expandCall_here s check hs hd]
        obtain ⟨es, hr, hf⟩ := hcheck d (some call.node) st hp
        exact ⟨es, .here hc hs hd hr, hf⟩
      | none =>
        intro st hp
        have hsays : s.Says holds callee ((s.resolve callee).run st.project).1 :=
          ⟨st.project, hp, rfl⟩
        have hf : s.Accounts holds tale st []
            { st with project := ((s.resolve callee).run st.project).2 } :=
          ⟨⟨rfl, by simp, by simp, ht.resolve callee st.project⟩, ht.asked callee st.project⟩
        rw [expandCall_elsewhere s check hs hd, Task.run_bind, Task.run_within]
        cases hres : ((s.resolve callee).run st.project).1 with
        | error e => exact ⟨[], .lost hc hs hd (hres ▸ hsays), hf⟩
        | ok found =>
          rw [hres] at hsays
          cases found with
          | none => exact ⟨[], .unknown hc hs hd hsays, hf⟩
          | some definitions =>
            obtain ⟨es, hr, hf'⟩ :=
              recounts_checkAll ht hcheck call.node definitions false _ (hf.project hp)
            exact ⟨es, .elsewhere hc hs hd hsays hr, hf.trans ht hf'⟩

theorem enter_unlocated {d : Cursor} {call : Option Node}
    {body : DeclarationId → Task (WalkState ρ) Bool} {e : Failure}
    (h : DeclarationId.of d.node = .error e) (st : WalkState ρ) :
    (s.enter d call body).run st = (.error e, st) := by
  unfold enter
  rw [h]
  exact Task.run_bind_error rfl

theorem enter_known {d : Cursor} {call : Option Node}
    {body : DeclarationId → Task (WalkState ρ) Bool} {id : DeclarationId} {st : WalkState ρ}
    (h : DeclarationId.of d.node = .ok id) (hv : st.memo.standing id ≠ .unvisited) :
    (s.enter d call body).run st =
      (if st.memo.verdictOf id then s.report call >>= fun _ => pure true
        else pure false : Task (WalkState ρ) Bool).run st := by
  unfold enter
  rw [h, Task.run_bind_ok (Task.run_ofExcept _ _),
    Task.run_bind_ok (Memo.run_beginVisit_met rfl hv)]
  simp only [Bool.false_eq_true, ↓reduceIte]
  rw [Task.run_bind_ok (Task.run_get _)]
  cases st.memo.verdictOf id <;> rfl

theorem run_enter_fresh {d : Cursor} {id : DeclarationId} {st : WalkState ρ}
    (h : DeclarationId.of d.node = .ok id) (hv : st.memo.standing id = .unvisited)
    (call : Option Node) (body : DeclarationId → Task (WalkState ρ) Bool) :
    (s.enter d call body).run st =
      (body id >>= fun verdict => modify (fun st => { st with memo := st.memo.record id verdict })
        >>= fun _ => pure verdict : Task (WalkState ρ) Bool).run
      (HasLog.append ⟨.debug, .memo, s!"Begin traversal: {id.text}"⟩
        { st with memo := (st.memo.begin id).2 }) := by
  unfold enter
  rw [h, Task.run_bind_ok (Task.run_ofExcept _ _), Task.run_bind_ok (Memo.run_beginVisit_fresh hv)]
  rfl

theorem enter_fresh (ht : s.Tracks holds tale) {d : Cursor} {id : DeclarationId} {st : WalkState ρ}
    (h : DeclarationId.of d.node = .ok id) (hv : st.memo.standing id = .unvisited) :
    ∃ st', s.Accounts holds tale st [.began d id] st' ∧
      ∀ call (body : DeclarationId → Task (WalkState ρ) Bool), (s.enter d call body).run st =
        (body id >>= fun verdict => modify (fun st => { st with memo := st.memo.record id verdict })
          >>= fun _ => pure verdict : Task (WalkState ρ) Bool).run st' := by
  have hlog : (⟨.debug, .memo, s!"Begin traversal: {id.text}"⟩ : Log.Entry) ≠ Report.skipped := by
    simp [Report.skipped]
  exact ⟨_, (Accounts.began ht st d id).trans ht (Accounts.log ht _ hlog), run_enter_fresh h hv⟩

theorem recounts_walkBody (ht : s.Tracks holds tale) {depth : Nat}
    {expand : Cursor → Task (WalkState ρ) Bool} (root : WalkRoot) (body : Node)
    (hexpand : ∀ n : Node, n.kind = .call →
      s.Recounts holds tale depth (.visit root.file ⟨root.unit, n⟩) (expand ⟨root.unit, n⟩))
    {st : WalkState ρ} (hp : holds st.project) :
    ∃ es, s.Runs holds depth (.walk root body [body] false) st.memo es
        ((s.walkBody expand root body).run st).1 ∧
      s.Accounts holds tale st (.walked ⟨root.unit, body⟩ :: es)
        ((s.walkBody expand root body).run st).2 := by
  have hf : s.Accounts holds tale st [.walked ⟨root.unit, body⟩] _ := Accounts.walked_body ht st _
  obtain ⟨es, hr, hf'⟩ := recounts_walk ht body hexpand [body] false _ (hf.project hp)
  exact ⟨es, hr, hf.trans ht hf'⟩

theorem recounts_enter_known (ht : s.Tracks holds tale) {d : Cursor} {call : Option Node}
    {body : DeclarationId → Task (WalkState ρ) Bool} (depth : Nat) {st : WalkState ρ}
    (hv : ∀ id, DeclarationId.of d.node = .ok id → st.memo.standing id ≠ .unvisited) :
    ∃ es, s.Runs holds depth (.check d call) st.memo es ((s.enter d call body).run st).1 ∧
      s.Accounts holds tale st es ((s.enter d call body).run st).2 := by
  cases hid : DeclarationId.of d.node with
  | error e =>
    rw [enter_unlocated hid]
    exact ⟨[], .unlocated hid, Accounts.refl ht st⟩
  | ok id =>
    rw [enter_known hid (hv id hid)]
    cases hverdict : st.memo.verdictOf id with
    | false => exact ⟨[], .known hid (hv id hid) hverdict, Accounts.refl ht st⟩
    | true =>
      obtain ⟨st', hrun, hf⟩ := run_report ht st call d
      rw [if_pos rfl, Task.run_bind_ok hrun]
      exact ⟨_, .recalled hid hverdict, hf⟩

/-- Checking a function recounts a check, whatever depth is left. -/
theorem recounts_checkFunctionDepth (ht : s.Tracks holds tale) (depth : Nat) (d : Cursor)
    (call : Option Node) :
    s.Recounts holds tale depth (.check d call) (s.checkFunctionDepth depth d call) := by
  induction depth generalizing d call with
  | zero =>
    intro st hp
    unfold checkFunctionDepth
    by_cases hv : ∃ id, DeclarationId.of d.node = .ok id ∧ st.memo.standing id = .unvisited
    · obtain ⟨id, hid, hv⟩ := hv
      obtain ⟨st', hf, hrun⟩ := enter_fresh (s := s) ht hid hv
      rw [hrun]
      exact ⟨_, .tooDeep hid hv, hf⟩
    · exact recounts_enter_known ht 0 fun id hid hs => hv ⟨id, hid, hs⟩
  | succ depth ih =>
    intro st hp
    unfold checkFunctionDepth
    by_cases hv : ∃ id, DeclarationId.of d.node = .ok id ∧ st.memo.standing id = .unvisited
    · obtain ⟨id, hid, hv⟩ := hv
      obtain ⟨st', hf, hrun⟩ := enter_fresh (s := s) ht hid hv
      rw [hrun]
      obtain ⟨es, hr, hf'⟩ := recounts_walkBody ht (functionRoot d call id) d.node
        (fun n hn => recounts_expandCall ht ih id.file hn) (hf.project hp)
      rw [hf.memo] at hr
      rcases hw : (s.walkBody (s.expandCall (s.checkFunctionDepth depth) id.file)
        (functionRoot d call id) d.node).run st' with ⟨e | v, st''⟩
      · rw [hw] at hr hf'
        rw [Task.run_bind_error hw]
        exact ⟨_, .broken hid hv hr, hf.trans ht hf'⟩
      · rw [hw] at hr hf'
        rw [Task.run_bind_ok hw]
        exact ⟨_, .checked hid hv hr, hf.trans ht (hf'.trans ht (Accounts.recorded ht st'' id v))⟩
    · exact recounts_enter_known ht (depth + 1) fun id hid hs => hv ⟨id, hid, hs⟩

theorem recounts_checkLoop (ht : s.Tracks holds tale) (loop : Cursor) :
    s.Recounts holds tale s.bound (.loop loop) (s.checkLoop loop) := by
  intro st hp
  unfold checkLoop
  cases hfile : loop.node.file? with
  | none =>
    have hlog : ∀ kind : String, (⟨.warning, .walk,
        s!"Loop without file location skipped: CursorKind.{kind}"⟩ : Log.Entry) ≠
          Report.skipped := by
      intro kind h
      have htext := congrArg (fun entry => entry.text.toList.head?) h
      simp [Report.skipped, ToString.toString] at htext
    exact ⟨[], .nowhere hfile, Accounts.log ht st (hlog _)⟩
  | some file =>
    obtain ⟨es, hr, hf⟩ := recounts_walkBody ht (loopRoot loop file) loop.node
      (fun n hn => recounts_expandCall ht (recounts_checkFunctionDepth ht s.bound) file hn) hp
    exact ⟨_, .loop hfile hr, hf⟩

end LoopSearch

end NPlusOne
