import Mathlib.Data.Finset.Card
import Mathlib.Data.List.Induction
import NPlusOne.Proofs.SearchFrame

namespace NPlusOne

/-- What is asked of a memo; a question about a function or about the size changes nothing. -/
inductive MemoRequest where
  | begin (id : DeclarationId)
  | record (id : DeclarationId) (verdict : Bool)
  | hasVerdict (id : DeclarationId)
  | verdictOf (id : DeclarationId)
  | stateOf (id : DeclarationId)
  | size
  deriving DecidableEq

namespace MemoRequest

/-- The function that is begun or recorded. -/
def subject? : MemoRequest → Option DeclarationId
  | begin id => some id
  | record id _ => some id
  | _ => none

/-- The verdict that is recorded for the function. -/
def verdict? (id : DeclarationId) : MemoRequest → Option Bool
  | record other verdict => if other = id then some verdict else none
  | _ => none

/-- The verdict that was recorded last for the function. -/
def lastVerdict (past : List MemoRequest) (id : DeclarationId) : Option Bool :=
  past.reverse.findSome? (verdict? id)

variable {past : List MemoRequest} {request : MemoRequest} {id : DeclarationId}

theorem subject?_eq_some : request.subject? = some id ↔
    request = .begin id ∨ ∃ verdict, request = .record id verdict := by
  cases request <;> simp [subject?]

theorem verdict?_eq_some {verdict : Bool} :
    request.verdict? id = some verdict ↔ request = .record id verdict := by
  cases request <;> simp [verdict?]

theorem lastVerdict_concat (past : List MemoRequest) (request : MemoRequest) (id : DeclarationId) :
    lastVerdict (past ++ [request]) id = (request.verdict? id).or (lastVerdict past id) := by
  rw [lastVerdict, List.reverse_append, List.findSome?_append]
  simp [lastVerdict]

theorem lastVerdict_eq_none :
    lastVerdict past id = none ↔ ∀ verdict, record id verdict ∉ past := by
  simp only [lastVerdict, List.findSome?_eq_none_iff, List.mem_reverse]
  constructor
  · intro h verdict hmem
    cases (h _ hmem).symm.trans (verdict?_eq_some.mpr rfl)
  · intro h request hmem
    refine Option.eq_none_iff_forall_ne_some.mpr fun verdict hverdict => ?_
    rw [verdict?_eq_some.mp hverdict] at hmem
    exact h verdict hmem

end MemoRequest

/-- The number of a state in the order in which they follow each other. -/
def VisitState.stage : VisitState → Nat
  | .unvisited => 0
  | .inProgress => 1
  | .resolved => 2

namespace Memo

/-- The memo after a request. -/
def step (m : Memo) : MemoRequest → Memo
  | .begin id => (m.begin id).2
  | .record id verdict => m.record id verdict
  | _ => m

def after (m : Memo) (past : List MemoRequest) : Memo :=
  past.foldl step m

theorem after_concat (m : Memo) (past : List MemoRequest) (request : MemoRequest) :
    m.after (past ++ [request]) = (m.after past).step request := by
  simp [after]

/-- What one request makes of the standing of a function. -/
theorem standing_step (m : Memo) (request : MemoRequest) (id : DeclarationId) :
    (m.step request).standing id = ((request.verdict? id).map .resolved).getD
      (if request = .begin id ∧ m.standing id = .unvisited then .inProgress
        else m.standing id) := by
  cases request with
  | begin other =>
    by_cases hsame : other = id
    · subst hsame
      by_cases hu : m.standing other = .unvisited
      · simp [step, MemoRequest.verdict?, standing_begin hu, hu]
      · simp [step, MemoRequest.verdict?, standing_begin_of_visited hu, hu]
    · simp [step, MemoRequest.verdict?, standing_begin_of_ne hsame, hsame]
  | record other verdict =>
    by_cases hsame : other = id <;> simp [step, MemoRequest.verdict?, standing_record, hsame]
  | hasVerdict | verdictOf | stateOf | size => simp [step, MemoRequest.verdict?]

/-- The standing of a function is told by its last verdict, and without one by whether its traversal
was begun. -/
theorem standing_after (past : List MemoRequest) (id : DeclarationId) :
    (after {} past).standing id = ((MemoRequest.lastVerdict past id).map .resolved).getD
      (if .begin id ∈ past then .inProgress else .unvisited) := by
  induction past using List.reverseRecOn with
  | nil => rfl
  | append_singleton past request ih =>
    rw [after_concat, standing_step, ih, MemoRequest.lastVerdict_concat]
    cases request.verdict? id with
    | some verdict => rfl
    | none =>
      cases MemoRequest.lastVerdict past id with
      | some verdict => simp
      | none =>
        by_cases hb : .begin id ∈ past
        · simp [hb]
        · by_cases hr : request = .begin id
          · simp [hr, hb]
          · simp [hr, hb, Ne.symm hr]

theorem stage_step (m : Memo) (request : MemoRequest) (id : DeclarationId) :
    (m.stateOf id).stage ≤ ((m.step request).stateOf id).stage := by
  rw [← state_standing, ← state_standing, standing_step]
  cases request.verdict? id with
  | some verdict => cases m.standing id <;> simp [Standing.state, VisitState.stage]
  | none =>
    simp only [Option.map_none, Option.getD_none]
    split
    next h => simp [h.2, Standing.state, VisitState.stage]
    next => exact le_refl _

/-- No traversal goes back, whatever is asked later. -/
theorem stage_after (m : Memo) (future : List MemoRequest) (id : DeclarationId) :
    (m.stateOf id).stage ≤ ((m.after future).stateOf id).stage := by
  induction future generalizing m with
  | nil => exact le_refl _
  | cons request future ih => exact (stage_step m request id).trans (ih (m.step request))

theorem size_step (m : Memo) (request : MemoRequest) :
    (m.step request).size =
      m.size + (request.subject?.filter fun id => m.standing id = .unvisited).toList.length := by
  cases request with
  | begin id =>
    rw [step, size_begin]
    by_cases hu : m.standing id = .unvisited <;> simp [MemoRequest.subject?, Option.filter_some, hu]
  | record id verdict =>
    rw [step, size_record]
    by_cases hu : m.standing id = .unvisited <;> simp [MemoRequest.subject?, Option.filter_some, hu]
  | hasVerdict | verdictOf | stateOf | size => simp [step, MemoRequest.subject?]

section History

variable {past : List MemoRequest} {id : DeclarationId}

theorem unvisited_after_iff :
    (after {} past).standing id = .unvisited ↔ ∀ request ∈ past, request.subject? ≠ some id := by
  rw [standing_after]
  cases hlast : MemoRequest.lastVerdict past id with
  | some verdict =>
    obtain ⟨request, hmem, hverdict⟩ := List.exists_of_findSome?_eq_some hlast
    have hsubject := MemoRequest.subject?_eq_some.mpr
      (.inr ⟨verdict, MemoRequest.verdict?_eq_some.mp hverdict⟩)
    simpa using ⟨request, List.mem_reverse.mp hmem, hsubject⟩
  | none =>
    have hnone := MemoRequest.lastVerdict_eq_none.mp hlast
    simp only [Option.map_none, Option.getD_none, ite_eq_right_iff, reduceCtorEq, imp_false]
    constructor
    · rintro hbegin request hmem hsubject
      obtain rfl | ⟨verdict, rfl⟩ := MemoRequest.subject?_eq_some.mp hsubject
      · exact hbegin hmem
      · exact hnone verdict hmem
    · exact fun h hmem => h _ hmem rfl

theorem inProgress_after_iff : (after {} past).stateOf id = .inProgress ↔
    .begin id ∈ past ∧ ∀ verdict, .record id verdict ∉ past := by
  rw [← state_standing, standing_after, ← MemoRequest.lastVerdict_eq_none]
  cases MemoRequest.lastVerdict past id with
  | some verdict => simp [Standing.state]
  | none => by_cases hb : .begin id ∈ past <;> simp [hb, Standing.state]

theorem resolved_after_iff : (after {} past).stateOf id = .resolved ↔
    ∃ verdict, .record id verdict ∈ past := by
  have hrecorded : (∃ verdict, .record id verdict ∈ past) ↔
      MemoRequest.lastVerdict past id ≠ none := by
    simp only [ne_eq, MemoRequest.lastVerdict_eq_none, not_forall, not_not]
  rw [← state_standing, standing_after, hrecorded]
  cases MemoRequest.lastVerdict past id with
  | some verdict => simp [Standing.state]
  | none => by_cases hb : .begin id ∈ past <;> simp [hb, Standing.state]

theorem verdictOf_after (past : List MemoRequest) (id : DeclarationId) :
    (after {} past).verdictOf id = (MemoRequest.lastVerdict past id).getD false := by
  rw [verdictOf_eq, standing_after]
  cases MemoRequest.lastVerdict past id with
  | some verdict => rfl
  | none => by_cases hb : .begin id ∈ past <;> simp [hb]

theorem size_after (past : List MemoRequest) :
    (after {} past).size = (past.filterMap MemoRequest.subject?).toFinset.card := by
  induction past using List.reverseRecOn with
  | nil => rfl
  | append_singleton past request ih =>
    rw [after_concat, size_step, ih, List.filterMap_append]
    cases hsubject : request.subject? with
    | none => simp [hsubject]
    | some id =>
      have hnew : (after {} past).standing id = .unvisited ↔
          id ∉ (past.filterMap MemoRequest.subject?).toFinset := by
        simp [unvisited_after_iff]
      by_cases hmem : id ∈ (past.filterMap MemoRequest.subject?).toFinset
      · simp [hsubject, Option.filter_some, hnew, hmem, Finset.insert_eq_of_mem]
      · simp [hsubject, Option.filter_some, hnew, hmem, Finset.card_insert_of_notMem]

end History

/-- What a memo shows of its past. -/
structure Shows (m : Memo) (past : List MemoRequest) : Prop where
  /-- A traversal is new if nothing before has begun or recorded the function. -/
  begin : ∀ id, (m.begin id).1 = true ↔ ∀ request ∈ past, request.subject? ≠ some id
  verdict : ∀ id, m.verdictOf id = (MemoRequest.lastVerdict past id).getD false
  resolved : ∀ id, m.hasVerdict id = true ↔ m.stateOf id = .resolved
  recorded : ∀ id, m.hasVerdict id = true ↔ ∃ verdict, .record id verdict ∈ past
  inProgress : ∀ id, m.stateOf id = .inProgress ↔
    .begin id ∈ past ∧ ∀ verdict, .record id verdict ∉ past
  /-- Whatever is asked later, no function goes back to an earlier state. -/
  forward : ∀ id future, (m.stateOf id).stage ≤ ((m.after future).stateOf id).stage
  size : m.size = (past.filterMap MemoRequest.subject?).toFinset.card

/-- Whatever was asked of a memo, it answers by its history. -/
theorem after_shows (past : List MemoRequest) : (after {} past).Shows past where
  begin id := by rw [begin_fst, unvisited_after_iff]
  verdict := verdictOf_after past
  resolved _ := hasVerdict_iff
  recorded id := by rw [hasVerdict_iff, resolved_after_iff]
  inProgress _ := inProgress_after_iff
  forward id future := stage_after _ future id
  size := size_after past

end Memo

end NPlusOne
