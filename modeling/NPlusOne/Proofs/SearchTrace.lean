import NPlusOne.LoopWalk
import NPlusOne.Proofs.TaskRun

namespace NPlusOne

/-- What is known of a function: how far it has come, and the verdict once there is one. -/
inductive Standing where
  | unvisited
  | inProgress
  | resolved (verdict : Bool)
  deriving DecidableEq, Repr

def Standing.state : Standing → VisitState
  | .unvisited => .unvisited
  | .inProgress => .inProgress
  | .resolved _ => .resolved

namespace Memo

def standing (m : Memo) (d : DeclarationId) : Standing :=
  match m.stateOf d with
  | .unvisited => .unvisited
  | .inProgress => .inProgress
  | .resolved => .resolved (m.verdictOf d)

@[simp] theorem standing_empty (d : DeclarationId) : standing {} d = .unvisited := rfl

theorem state_standing (m : Memo) (d : DeclarationId) : (m.standing d).state = m.stateOf d := by
  unfold standing
  cases m.stateOf d <;> rfl

theorem find_eq_none_iff {m : Memo} {d : DeclarationId} :
    find d m.states = none ↔ m.standing d = .unvisited := by
  have hv := m.visited d
  unfold standing stateOf
  rcases hs : find d m.states with _ | state
  · simp
  · cases state with
    | unvisited => exact absurd hs hv
    | inProgress | resolved => simp

theorem standing_begin {m : Memo} {d : DeclarationId} (h : m.standing d = .unvisited)
    (e : DeclarationId) :
    (m.begin d).2.standing e = if d = e then .inProgress else m.standing e := by
  rw [begin, dif_pos (find_eq_none_iff.mpr h)]
  unfold standing stateOf
  rw [find_put]
  by_cases hd : d = e
  · rw [if_pos hd, if_pos hd]
    rfl
  · rw [if_neg hd, if_neg hd]
    rfl

theorem begin_of_visited {m : Memo} {d : DeclarationId} (h : m.standing d ≠ .unvisited) :
    m.begin d = (false, m) := by
  rw [begin, dif_neg fun hn => h (find_eq_none_iff.mp hn)]

theorem begin_fst (m : Memo) (d : DeclarationId) :
    (m.begin d).1 = true ↔ m.standing d = .unvisited := by
  rw [begin, ← find_eq_none_iff]
  split
  next h => simp [h]
  next h => simp [h]

theorem standing_record (m : Memo) (d e : DeclarationId) (v : Bool) :
    (m.record d v).standing e = if d = e then .resolved v else m.standing e := by
  unfold standing stateOf verdictOf record
  rw [find_put, find_put]
  by_cases hd : d = e
  · rw [if_pos hd, if_pos hd, if_pos hd]
    rfl
  · rw [if_neg hd, if_neg hd, if_neg hd]

/-- A memo grows by a function that was unvisited until now. -/
theorem size_begin (m : Memo) (d : DeclarationId) :
    (m.begin d).2.size = m.size + if m.standing d = .unvisited then 1 else 0 := by
  by_cases h : m.standing d = .unvisited
  · have hn := find_eq_none_iff.mpr h
    rw [begin, dif_pos hn, if_pos h, size, length_put, hn]
    rfl
  · rw [begin_of_visited h, if_neg h]
    rfl

theorem size_record (m : Memo) (d : DeclarationId) (v : Bool) :
    (m.record d v).size = m.size + if m.standing d = .unvisited then 1 else 0 := by
  rw [record, size, length_put]
  by_cases h : m.standing d = .unvisited
  · rw [if_pos h, find_eq_none_iff.mpr h]
    rfl
  · rw [if_neg h, if_pos (Option.isSome_iff_ne_none.mpr fun hn => h (find_eq_none_iff.mp hn))]
    rfl

theorem hasVerdict_iff {m : Memo} {d : DeclarationId} :
    m.hasVerdict d = true ↔ m.stateOf d = .resolved := by
  rw [hasVerdict, ← m.settled, stateOf]
  cases find d m.states <;> simp

/-- Without a verdict a function counts as not reaching a query. -/
theorem verdictOf_eq (m : Memo) (d : DeclarationId) :
    m.verdictOf d = match m.standing d with
      | .resolved v => v
      | _ => false := by
  have hnone (hs : find d m.states ≠ some .resolved) : m.verdictOf d = false := by
    have hv : find d m.verdicts = none := by simpa [m.settled d] using hs
    simp [verdictOf, hv]
  unfold standing stateOf
  rcases hs : find d m.states with _ | state
  · exact hnone (by simp [hs])
  · cases state with
    | unvisited => exact absurd hs (m.visited d)
    | inProgress => exact hnone (by simp [hs])
    | resolved => rfl

section Visit

variable {σ : Type} [HasLog σ] {memo : σ → Memo} {keep : Memo → σ → σ} {st : σ} {d : DeclarationId}

theorem run_beginVisit_met (hkeep : keep (memo st) st = st)
    (h : (memo st).standing d ≠ .unvisited) :
    (beginVisit memo keep d).run st = (.ok false, st) := by
  unfold beginVisit
  have hfirst : (modifyGet (fun s => (((memo s).begin d).1, keep ((memo s).begin d).2 s)) :
      Task σ Bool).run st = (.ok false, st) := by
    refine Prod.ext (congrArg Except.ok ?_) ?_
    · exact congrArg Prod.fst (begin_of_visited h)
    · exact (congrArg (fun m => keep (Prod.snd m) st) (begin_of_visited h)).trans hkeep
  rw [Task.run_bind_ok hfirst]
  rfl

theorem run_beginVisit_fresh (h : (memo st).standing d = .unvisited) :
    (beginVisit memo keep d).run st = (.ok true, HasLog.append
      ⟨.debug, .memo, s!"Begin traversal: {d.text}"⟩ (keep ((memo st).begin d).2 st)) := by
  unfold beginVisit
  have hfirst : (modifyGet (fun s => (((memo s).begin d).1, keep ((memo s).begin d).2 s)) :
      Task σ Bool).run st = (.ok true, keep ((memo st).begin d).2 st) :=
    Prod.ext (congrArg Except.ok ((begin_fst _ d).mpr h)) rfl
  rw [Task.run_bind_ok hfirst]
  rfl

end Visit

end Memo

/-- What a search does, in the order in which it does it. -/
inductive Event where
  | began (definition : Cursor) (id : DeclarationId)
  | walked (body : Cursor)
  /-- A report is tried at `target` because `about` reaches a query. -/
  | reported (target : Option Node) (about : Cursor)
  | recorded (id : DeclarationId) (verdict : Bool)

namespace Event

def onMemo (m : Memo) : Event → Memo
  | began _ id => (m.begin id).2
  | recorded id verdict => m.record id verdict
  | _ => m

/-- The report that is kept; a target that lies in no file gives none. -/
def report? (message : String) : Event → Option Report
  | reported target _ => target.bind (Report.atNode? · message)
  | _ => none

def walked? : Event → Option Cursor
  | walked body => some body
  | _ => none

/-- Where a report is tried. -/
def target? : Event → Option (Option Node)
  | reported target _ => some target
  | _ => none

end Event

/-- The memo after the events. -/
def Memo.replay (m : Memo) (es : List Event) : Memo :=
  es.foldl Event.onMemo m

@[simp] theorem Memo.replay_nil (m : Memo) : m.replay [] = m := rfl

theorem Memo.replay_cons (m : Memo) (e : Event) (es : List Event) :
    m.replay (e :: es) = (e.onMemo m).replay es := rfl

@[simp] theorem Memo.replay_walked (m : Memo) (body : Cursor) (es : List Event) :
    m.replay (.walked body :: es) = m.replay es := rfl

@[simp] theorem Memo.replay_reported (m : Memo) (target : Option Node) (about : Cursor)
    (es : List Event) : m.replay (.reported target about :: es) = m.replay es := rfl

@[simp] theorem Memo.replay_began (m : Memo) (d : Cursor) (id : DeclarationId)
    (es : List Event) : m.replay (.began d id :: es) = (m.begin id).2.replay es := rfl

@[simp] theorem Memo.replay_recorded (m : Memo) (id : DeclarationId) (v : Bool)
    (es : List Event) : m.replay (.recorded id v :: es) = (m.record id v).replay es := rfl

@[simp] theorem Memo.replay_append (m : Memo) (es fs : List Event) :
    m.replay (es ++ fs) = (m.replay es).replay fs := by
  simp [Memo.replay, List.foldl_append]

/-- The parts into which a search falls. -/
inductive Errand where
  | loop (loop : Cursor)
  | check (definition : Cursor) (call : Option Node)
  | walk (root : WalkRoot) (body : Node) (stack : List Node) (found : Bool)
  | visit (file : String) (node : Cursor)
  | checkAll (call : Node) (definitions : List Cursor) (found : Bool)

namespace LoopSearch

variable {ρ : Type} [HasLog ρ]

/-- What the resolver may answer about a callee in a state with `holds`. -/
def Says (s : LoopSearch ρ) (holds : ρ → Prop) (callee : Cursor)
    (answer : Except Failure (Option (List Cursor))) : Prop :=
  ∃ p, holds p ∧ ((s.resolve callee).run p).1 = answer

/-- Neither a question to the resolver nor a log entry takes `holds` away. -/
structure Keeps (s : LoopSearch ρ) (holds : ρ → Prop) : Prop where
  resolve : ∀ callee p, holds p → holds ((s.resolve callee).run p).2
  append : ∀ entry p, holds p → holds (HasLog.append entry p)

/-- The definition of a callee, where the file itself has it. -/
def definitionHere (file : String) (callee : Cursor) : Option Cursor :=
  callee.definition?.filter (·.node.file? = some file)

abbrev functionRoot (definition : Cursor) (call : Option Node) (id : DeclarationId) : WalkRoot :=
  ⟨definition.unit, call, id.file, some id⟩

abbrev loopRoot (loop : Cursor) (file : String) : WalkRoot :=
  ⟨loop.unit, some loop.node, file, none⟩

/-- What the parts of a search do: the events and the outcome of an errand from a given memo, with
at most `depth` functions inside each other. -/
inductive Runs (s : LoopSearch ρ) (holds : ρ → Prop) :
    (depth : Nat) → Errand → Memo → List Event → Except Failure Bool → Prop
  | nowhere {n m loop} : loop.node.file? = none → Runs s holds n (.loop loop) m [] (.ok false)
  | loop {n m loop file es r} : loop.node.file? = some file →
    Runs s holds n (.walk (loopRoot loop file) loop.node [loop.node] false) m es r →
    Runs s holds n (.loop loop) m (.walked loop :: es) r
  | unlocated {n m d call e} : DeclarationId.of d.node = .error e →
    Runs s holds n (.check d call) m [] (.error e)
  | known {n m d call id} : DeclarationId.of d.node = .ok id → m.standing id ≠ .unvisited →
    m.verdictOf id = false → Runs s holds n (.check d call) m [] (.ok false)
  | recalled {n m d call id} : DeclarationId.of d.node = .ok id → m.verdictOf id = true →
    Runs s holds n (.check d call) m [.reported call d] (.ok true)
  | tooDeep {m d call id} : DeclarationId.of d.node = .ok id → m.standing id = .unvisited →
    Runs s holds 0 (.check d call) m [.began d id] (.error .tooDeep)
  | broken {n m d call id es e} : DeclarationId.of d.node = .ok id → m.standing id = .unvisited →
    Runs s holds n (.walk (functionRoot d call id) d.node [d.node] false) (m.begin id).2 es
      (.error e) →
    Runs s holds (n + 1) (.check d call) m (.began d id :: .walked d :: es) (.error e)
  | checked {n m d call id es v} : DeclarationId.of d.node = .ok id → m.standing id = .unvisited →
    Runs s holds n (.walk (functionRoot d call id) d.node [d.node] false) (m.begin id).2 es
      (.ok v) →
    Runs s holds (n + 1) (.check d call) m (.began d id :: .walked d :: (es ++ [.recorded id v]))
      (.ok v)
  | emptied {n m root body found} : Runs s holds n (.walk root body [] found) m [] (.ok found)
  | settled {n m root body x rest found id} : s.isQueryUse root.unit x = true →
    root.function = some id →
    Runs s holds n (.walk root body (x :: rest) found) m
      [.reported (root.target <|> some x) ⟨root.unit, body⟩, .recorded id true] (.ok true)
  | noted {n m root body x rest found es r} : s.isQueryUse root.unit x = true →
    root.function = none →
    Runs s holds n (.walk root body rest true) m es r →
    Runs s holds n (.walk root body (x :: rest) found) m
      (.reported (root.target <|> some x) ⟨root.unit, body⟩ :: es) r
  | halted {n m root body x rest found es e} : s.isQueryUse root.unit x = false →
    Runs s holds n (.visit root.file ⟨root.unit, x⟩) m es (.error e) →
    Runs s holds n (.walk root body (x :: rest) found) m es (.error e)
  | closed {n m root body x rest found es reached e} : s.isQueryUse root.unit x = false →
    Runs s holds n (.visit root.file ⟨root.unit, x⟩) m es (.ok reached) →
    x.children = .error e →
    Runs s holds n (.walk root body (x :: rest) found) m es (.error e)
  | passed {n m root body x xs rest found es fs reached r} : s.isQueryUse root.unit x = false →
    Runs s holds n (.visit root.file ⟨root.unit, x⟩) m es (.ok reached) →
    x.children = .ok xs →
    Runs s holds n (.walk root body (xs ++ rest) (found || reached)) (m.replay es) fs r →
    Runs s holds n (.walk root body (x :: rest) found) m (es ++ fs) r
  | skipped {n m file c} : c.node.kind ≠ .call → Runs s holds n (.visit file c) m [] (.ok false)
  | misread {n m file c e} : c.node.kind = .call → c.simpleCallee = .error e →
    Runs s holds n (.visit file c) m [] (.error e)
  | unnamed {n m file c} : c.node.kind = .call → c.simpleCallee = .ok none →
    Runs s holds n (.visit file c) m [] (.ok false)
  | here {n m file c callee d es r} : c.node.kind = .call → c.simpleCallee = .ok (some callee) →
    definitionHere file callee = some d → Runs s holds n (.check d (some c.node)) m es r →
    Runs s holds n (.visit file c) m es r
  | lost {n m file c callee e} : c.node.kind = .call → c.simpleCallee = .ok (some callee) →
    definitionHere file callee = none → s.Says holds callee (.error e) →
    Runs s holds n (.visit file c) m [] (.error e)
  | unknown {n m file c callee} : c.node.kind = .call → c.simpleCallee = .ok (some callee) →
    definitionHere file callee = none → s.Says holds callee (.ok none) →
    Runs s holds n (.visit file c) m [] (.ok false)
  | elsewhere {n m file c callee ds es r} : c.node.kind = .call →
    c.simpleCallee = .ok (some callee) → definitionHere file callee = none →
    s.Says holds callee (.ok (some ds)) → Runs s holds n (.checkAll c.node ds false) m es r →
    Runs s holds n (.visit file c) m es r
  | done {n m call found} : Runs s holds n (.checkAll call [] found) m [] (.ok found)
  | failed {n m call d ds found es e} : Runs s holds n (.check d (some call)) m es (.error e) →
    Runs s holds n (.checkAll call (d :: ds) found) m es (.error e)
  | next {n m call d ds found es fs reached r} :
    Runs s holds n (.check d (some call)) m es (.ok reached) →
    Runs s holds n (.checkAll call ds (found || reached)) (m.replay es) fs r →
    Runs s holds n (.checkAll call (d :: ds) found) m (es ++ fs) r

end LoopSearch

end NPlusOne
