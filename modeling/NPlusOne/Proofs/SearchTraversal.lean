import NPlusOne.Proofs.QueryReach
import NPlusOne.Proofs.SearchRun

namespace NPlusOne

namespace LoopSearch

variable {ρ B : Type} {s : LoopSearch ρ}

theorem stepwise_checkAll {holds : ∀ α : Type, Task (WalkState ρ) α → Prop}
    (h : Task.Stepwise (fun _ => True) holds) {check : Cursor → Task (WalkState ρ) Bool}
    {ds : List Cursor} (hds : ∀ d ∈ ds, holds _ (check d)) (found : Bool) :
    holds _ (checkAll check ds found) := by
  induction ds generalizing found with
  | nil => exact h.pure _
  | cons d ds ih =>
    refine h.bind (hds d List.mem_cons_self) fun reached => ?_
    exact ih (fun other ho => hds other (List.mem_cons_of_mem d ho)) _

variable [HasLog ρ]

/-- A walk has every property that is stepwise, if expanding a call, reporting and recording have
it. -/
theorem stepwise_walk {holds : ∀ α : Type, Task (WalkState ρ) α → Prop}
    (h : Task.Stepwise (fun _ => True) holds)
    {expand : Cursor → Task (WalkState ρ) Bool} {root : WalkRoot}
    (hexpand : ∀ n, holds _ (expand ⟨root.unit, n⟩)) (hreport : ∀ target, holds _ (s.report target))
    (hrecord : ∀ id, holds _ (modify fun st => { st with memo := st.memo.record id true }))
    (stack : List Node) (found : Bool) : holds _ (s.walk expand root stack found) := by
  induction stack, found using walk.induct s expand root with
  | case1 found =>
    rw [walk.eq_1]
    exact h.pure _
  | case2 n rest found hu ih =>
    rw [walk.eq_2, if_pos hu]
    refine h.bind (hreport _) fun _ => ?_
    cases root.function with
    | some id => exact h.bind (hrecord id) fun _ => h.pure _
    | none => exact ih
  | case3 n rest found hu _ ih | case4 n rest found hu _ ih =>
    rw [walk_cons_of_not_use s expand (by simpa using hu)]
    have hvisit : holds _ (if n.kind = .call then expand ⟨root.unit, n⟩ else pure false) := by
      by_cases hk : n.kind = .call
      · rw [if_pos hk]
        exact hexpand n
      · rw [if_neg hk]
        exact h.pure _
    refine h.bind hvisit fun reached => ?_
    cases hc : n.children with
    | error e => exact h.throw _ trivial
    | ok children => exact ih reached children hc

variable {holds : B → ∀ α : Type, Task (WalkState ρ) α → Prop} {admits : B → Cursor → Prop} {b : B}
  {check : Cursor → Option Node → Task (WalkState ρ) Bool}

/-- The check of a body that is admitted has the property, wherever one starts from. -/
def Secures (holds : B → ∀ α : Type, Task (WalkState ρ) α → Prop) (admits : B → Cursor → Prop)
    (check : Cursor → Option Node → Task (WalkState ρ) Bool) : Prop :=
  ∀ b d call, admits b d → holds b _ (check d call)

/-- The parts of a search have the property `holds`, which may depend on where one starts from.
Bodies are walked only where they are admitted, and with a body all of its file are that the unit
has. -/
structure Throughout (s : LoopSearch ρ) (holds : B → ∀ α : Type, Task (WalkState ρ) α → Prop)
    (admits : B → Cursor → Prop) : Prop where
  stepwise : ∀ b, Task.Stepwise (fun _ => True) (holds b)
  look : ∀ b {α : Type} (f : Memo → Task (WalkState ρ) α), (∀ memo, holds b _ (f memo)) →
    holds b _ (get >>= fun st => f st.memo)
  write : ∀ b level channel text, holds b _ (Log.write level channel text)
  memo : ∀ b {α : Type} (f : Memo → α × Memo),
    holds b _ (modifyGet fun st => ((f st.memo).1, { st with memo := (f st.memo).2 }))
  emit : ∀ b report, holds b _ (modify fun st => { st with reports := st.reports ++ [report] })
  walk : ∀ b c, admits b c → holds b _ (modify fun st => { st with walked := st.walked ++ [c] })
  near : ∀ b c d, admits b c → d.unit = c.unit → d.node ∈ c.unit.nodes →
    d.node.file? = c.node.file? → admits b d
  elsewhere : ∀ b check callee call, Secures holds admits check → holds b _
    (Task.within WalkState.project (fun p st => { st with project := p }) (s.resolve callee) >>=
      fun found => found.elim (pure false)
        fun definitions => checkAll (check · call) definitions false)

namespace Throughout

variable (h : s.Throughout holds admits)

include h

theorem report (target : Option Node) : holds b _ (s.report target) := by
  unfold LoopSearch.report
  split
  next => exact h.write b _ _ _
  next =>
    split
    next => exact (h.stepwise b).bind (h.write b _ _ _) fun _ => h.emit b _
    next => exact h.emit b _

theorem record (id : DeclarationId) (verdict : Bool) :
    holds b _ (modify fun st => { st with memo := st.memo.record id verdict }) :=
  h.memo b fun memo => (PUnit.unit, memo.record id verdict)

theorem beginVisit (id : DeclarationId) :
    holds b _ (Memo.beginVisit WalkState.memo (fun memo st => { st with memo }) id) := by
  refine (h.stepwise b).bind (h.memo b fun memo => memo.begin id) fun fresh => ?_
  cases fresh with
  | true => exact (h.stepwise b).bind (h.write b _ _ _) fun _ => (h.stepwise b).pure _
  | false => exact (h.stepwise b).pure _

theorem enter {d : Cursor} {call : Option Node} {body : DeclarationId → Task (WalkState ρ) Bool}
    (hbody : ∀ id, DeclarationId.of d.node = .ok id → holds b _ (body id)) :
    holds b _ (s.enter d call body) := by
  have hb := h.stepwise b
  unfold LoopSearch.enter
  cases hid : DeclarationId.of d.node with
  | error e => exact hb.throw e trivial
  | ok id =>
    rw [Task.ofExcept_ok_bind]
    refine hb.bind (h.beginVisit id) fun fresh => ?_
    cases fresh with
    | true =>
      refine hb.bind (hbody id hid) fun verdict => ?_
      exact hb.bind (h.record id verdict) fun _ => hb.pure _
    | false =>
      simp only [Bool.false_eq_true, ↓reduceIte]
      refine h.look b (fun memo => if memo.verdictOf id then
        s.report call >>= fun _ => pure (memo.verdictOf id) else pure (memo.verdictOf id)) ?_
      intro memo
      split
      next => exact hb.bind (h.report call) fun _ => hb.pure _
      next => exact hb.pure _

theorem expandCall (hcheck : Secures holds admits check) {c call : Cursor} {file : String}
    (hc : admits b c) (hfile : c.node.file? = some file) (hunit : call.unit = c.unit) :
    holds b _ (s.expandCall check file call) := by
  cases hs : call.simpleCallee with
  | error e =>
    unfold LoopSearch.expandCall
    rw [hs]
    exact (h.stepwise b).throw e trivial
  | ok callee? =>
    cases callee? with
    | none =>
      unfold LoopSearch.expandCall
      rw [hs]
      exact (h.stepwise b).pure _
    | some callee =>
      cases hd : definitionHere file callee with
      | some d =>
        rw [expandCall_here s check hs hd]
        obtain ⟨hdef, hdfile⟩ := definitionHere_eq_some_iff.mp hd
        obtain ⟨hdunit, hnode⟩ := Cursor.definition?_mem hdef
        rw [Cursor.unit_of_simpleCallee hs, hunit] at hdunit hnode
        exact hcheck b d _ (h.near b c d hc hdunit hnode (hdfile.trans hfile.symm))
      | none =>
        rw [expandCall_elsewhere s check hs hd]
        exact h.elsewhere b check callee _ hcheck

theorem walkBody (hcheck : Secures holds admits check) (root : WalkRoot) {body : Node}
    (hbody : admits b ⟨root.unit, body⟩) (hfile : body.file? = some root.file) :
    holds b _ (s.walkBody (s.expandCall check root.file) root body) :=
  (h.stepwise b).bind (h.walk b _ hbody) fun _ => stepwise_walk (h.stepwise b)
    (fun _ => h.expandCall hcheck hbody hfile rfl) h.report (fun id => h.record id true) _ _

theorem checkFunctionDepth (depth : Nat) :
    Secures holds admits (s.checkFunctionDepth depth) := by
  induction depth with
  | zero =>
    intro b d call _
    exact h.enter fun _ _ => (h.stepwise b).throw _ trivial
  | succ depth ih =>
    intro b d call hd
    refine h.enter fun id hid => ?_
    exact h.walkBody ih (functionRoot d call id) hd (DeclarationId.file_of hid)

theorem checkLoop {c : Cursor} (hc : admits b c) : holds b _ (s.checkLoop c) := by
  unfold LoopSearch.checkLoop
  cases hfile : c.node.file? with
  | none => exact (h.stepwise b).bind (h.write b _ _ _) fun _ => (h.stepwise b).pure _
  | some file => exact h.walkBody (h.checkFunctionDepth s.bound) (loopRoot c file) hc hfile

end Throughout

end LoopSearch

end NPlusOne
