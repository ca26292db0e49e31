import NPlusOne.Proofs.CallListing
import NPlusOne.Proofs.SearchOnce

namespace NPlusOne

namespace Event

/-- What an event may do to a memo: only a function that is unvisited is begun, and a verdict is
recorded for one in progress, or a second time for one that has it already. -/
def Allowed (m : Memo) : Event → Prop
  | began _ id => m.standing id = .unvisited
  | recorded id verdict => m.standing id = .inProgress ∨ m.standing id = .resolved verdict
  | _ => True

/-- The function that is begun. -/
def begun? : Event → Option Cursor
  | began d _ => some d
  | _ => none

/-- A verdict that stands is not changed. -/
theorem Allowed.resolved {m : Memo} {e : Event} (h : e.Allowed m) {id : DeclarationId} {v : Bool}
    (hv : m.standing id = .resolved v) : (e.onMemo m).standing id = .resolved v := by
  cases e with
  | walked | reported => exact hv
  | began d other => rwa [onMemo, Memo.standing_begin_of_visited (by simp [hv])]
  | recorded other verdict =>
    rw [onMemo, Memo.standing_record]
    split
    next heq =>
      subst heq
      rcases h with hp | hr
      · cases hp.symm.trans hv
      · exact hr.symm.trans hv
    next => exact hv

end Event

namespace Memo

/-- The memo grows by the functions that are begun, and by nothing else. -/
theorem size_onMemo {m : Memo} {e : Event} (he : e.Allowed m) :
    (e.onMemo m).size = m.size + e.begun?.toList.length := by
  cases e with
  | walked | reported => rfl
  | began d id =>
    have hv : m.standing id = .unvisited := he
    rw [Event.onMemo, size_begin, if_pos hv]
    rfl
  | recorded id verdict =>
    have hv : m.standing id ≠ .unvisited := by
      intro hu
      rcases he with hp | hr
      · cases hu.symm.trans hp
      · cases hu.symm.trans hr
    rw [Event.onMemo, size_record, if_neg hv]
    rfl

/-- Each event is allowed where it happens. -/
def Lawful : Memo → List Event → Prop
  | _, [] => True
  | m, e :: es => e.Allowed m ∧ Lawful (e.onMemo m) es

theorem lawful_append {m : Memo} {es fs : List Event} :
    m.Lawful (es ++ fs) ↔ m.Lawful es ∧ (m.replay es).Lawful fs := by
  induction es generalizing m with
  | nil => simp [Lawful]
  | cons e es ih => simp [Lawful, ih, and_assoc, replay_cons]

namespace Lawful

variable {m : Memo} {es : List Event}

theorem resolved (h : m.Lawful es) {id : DeclarationId} {v : Bool}
    (hv : m.standing id = .resolved v) : (m.replay es).standing id = .resolved v := by
  induction es generalizing m with
  | nil => exact hv
  | cons e es ih => exact ih h.2 (h.1.resolved hv)

theorem size_replay (h : m.Lawful es) :
    (m.replay es).size = m.size + (es.filterMap Event.begun?).length := by
  induction es generalizing m with
  | nil => rfl
  | cons e es ih =>
    rw [replay_cons, ih h.2, size_onMemo h.1]
    cases he : e.begun? with
    | none => simp [he]
    | some d =>
      rw [List.filterMap_cons_some he, List.length_cons, Option.toList_some, List.length_singleton]
      omega

end Lawful

theorem replay_visited_of_began {m : Memo} {es : List Event} {d : Cursor} {id : DeclarationId}
    (h : Event.began d id ∈ es) : (m.replay es).standing id ≠ .unvisited := by
  obtain ⟨past, future, rfl⟩ := List.append_of_mem h
  rw [replay_append, replay_began]
  exact replay_visited (begin_visited _ id) future

end Memo

namespace LoopSearch

variable {ρ : Type} {s : LoopSearch ρ} {holds : ρ → Prop} {n : Nat} {errand : Errand} {m : Memo}
  {es : List Event} {r : Except Failure Bool}

/-- While its body is walked, a function is in progress; so the verdict that a query use records
and the one that is recorded at the end meet no other. -/
theorem Runs.lawful (h : s.Runs holds n errand m es r)
    (ho : ∀ id, errand.owner = some id → m.standing id = .inProgress) : m.Lawful es := by
  induction h with
  | nowhere | unlocated | known | emptied | skipped | misread | unnamed | lost | unknown | done =>
    trivial
  | recalled => exact ⟨trivial, trivial⟩
  | tooDeep _ hu => exact ⟨hu, trivial⟩
  | loop _ _ ih => exact ⟨trivial, ih (by rintro _ ⟨⟩)⟩
  | @broken n m d call id es e hid hu _ ih =>
    refine ⟨hu, trivial, ih ?_⟩
    rintro _ ⟨⟩
    rw [Memo.standing_begin hu, if_pos rfl]
  | @checked n m d call id es v hid hu hw ih =>
    have hp : (m.begin id).2.standing id = .inProgress := by rw [Memo.standing_begin hu, if_pos rfl]
    refine ⟨hu, trivial, Memo.lawful_append.mpr ⟨ih ?_, ?_, trivial⟩⟩
    · rintro _ ⟨⟩
      exact hp
    · -- What the walk recorded about its own function is the verdict that it returns.
      cases hs : ((m.begin id).2.replay es).standing id with
      | unvisited => exact absurd hs (Memo.replay_visited (by simp [hp]) es)
      | inProgress => exact .inl hs
      | resolved w =>
        rcases Memo.replay_resolved hs with hold | hrec
        · cases hp.symm.trans hold
        · rcases hw.recorded_begun hrec with ⟨c, hc⟩ | ⟨_, hv, rfl⟩
          · cases hp.symm.trans (hw.began_fresh hc).2
          · cases hv
            exact .inr hs
  | settled _ hf => exact ⟨trivial, .inl (ho _ hf), trivial⟩
  | noted _ hf _ ih => exact ⟨trivial, ih fun id hid => by cases hf.symm.trans hid⟩
  | halted _ _ ih | closed _ _ _ ih => exact ih (by rintro _ ⟨⟩)
  | here _ _ _ _ ih | elsewhere _ _ _ _ _ ih | failed _ ih => exact ih (by rintro _ ⟨⟩)
  | @passed n m root body x xs rest found es fs reached r _ hv hc _ ih ih' =>
    refine Memo.lawful_append.mpr ⟨ih (by rintro _ ⟨⟩), ih' fun id hid => ?_⟩
    have hp := ho id hid
    rw [hv.frame (by simp [hp]) (by rintro ⟨⟩)]
    exact hp
  | next _ _ ih ih' =>
    exact Memo.lawful_append.mpr ⟨ih (by rintro _ ⟨⟩), ih' (by rintro _ ⟨⟩)⟩

/-- Besides a loop, an errand that ends well walks the functions that it begins. -/
theorem Runs.walked_eq (h : s.Runs holds n errand m es r) {b : Bool} (hb : r = .ok b) :
    es.filterMap Event.walked? = errand.loops ++ es.filterMap Event.begun? := by
  induction h generalizing b with
  | nowhere hf => simp [Errand.loops, hf]
  | known | recalled | emptied | settled | skipped | unnamed | unknown | done => rfl
  | unlocated | tooDeep | broken | halted | closed | misread | lost | failed => cases hb
  | @loop n m c file es r hf _ ih =>
    have hloops : (Errand.loop c).loops = [c] := by simp [Errand.loops, hf]
    rw [hloops]
    exact congrArg (c :: ·) (ih hb)
  | @checked n m d call id es v _ _ _ ih =>
    have hbody : (es ++ [Event.recorded id v]).filterMap Event.walked? =
        (es ++ [Event.recorded id v]).filterMap Event.begun? := by
      rw [List.filterMap_append, List.filterMap_append, ih rfl]
      rfl
    exact congrArg (d :: ·) hbody
  | noted _ _ _ ih => exact ih hb
  | here _ _ _ _ ih | elsewhere _ _ _ _ _ ih => exact ih hb
  | passed _ _ _ _ ih ih' | next _ _ ih ih' =>
    have hfirst := ih rfl
    have hrest := ih' hb
    simp only [Errand.loops, List.nil_append] at hfirst hrest ⊢
    rw [List.filterMap_append, List.filterMap_append, hfirst, hrest]

/-- The events tell how a step went: it runs in this way from the memo that it finds, and they lead
from the one state to the other. -/
structure Told (s : LoopSearch ρ) (step : Step) (st : WalkState ρ) (es : List Event)
    (r : Except Failure Bool) (st' : WalkState ρ) : Prop where
  runs : s.Runs (fun _ => True) s.bound step.errand st.memo es r
  follows : s.Follows (fun _ => True) st es st'

variable [HasLog ρ]

theorem told_perform (s : LoopSearch ρ) (step : Step) (st : WalkState ρ) :
    ∃ es, s.Told step st es ((s.perform step).run st).1 ((s.perform step).run st).2 := by
  have hk : s.Keeps fun _ => True := ⟨fun _ _ _ => trivial, fun _ _ _ => trivial⟩
  obtain ⟨es, hr, hf⟩ := tells_perform hk step st trivial
  exact ⟨es, hr, hf⟩

/-- What a step that returns has done to the memo. Every function that it began has a verdict, those
that were visited before are as they were, a verdict that stands at one time stands at every later
one, and the memo has grown by the functions that were walked. -/
theorem perform_frames_memo (s : LoopSearch ρ) (step : Step) {st st' : WalkState ρ} {b : Bool}
    (h : (s.perform step).run st = (.ok b, st')) :
    (∃ es, s.Told step st es (.ok b) st') ∧ ∀ es, s.Told step st es (.ok b) st' →
      (∀ d id, .began d id ∈ es → ∃ verdict, st'.memo.standing id = .resolved verdict) ∧
      (∀ id, st.memo.standing id ≠ .unvisited → st'.memo.standing id = st.memo.standing id) ∧
      (∀ past next future, es = past ++ next ++ future → ∀ id verdict,
        (st.memo.replay past).standing id = .resolved verdict →
          (st.memo.replay (past ++ next)).standing id = .resolved verdict) ∧
      st'.walked = st.walked ++ step.errand.loops ++ es.filterMap Event.begun? ∧
      st'.memo.size = st.memo.size + (es.filterMap Event.begun?).length := by
  refine ⟨?_, fun es htold => ?_⟩
  · obtain ⟨es, htold⟩ := s.told_perform step st
    rw [h] at htold
    exact ⟨es, htold⟩
  have hmemo := htold.follows.memo
  have hlawful : st.memo.Lawful es := htold.runs.lawful (by simp)
  refine ⟨fun d id hb => ?_, fun id hv => ?_, ?_, ?_, ?_⟩
  · have hfresh := (htold.runs.began_fresh hb).2
    rw [hmemo]
    cases hs : (st.memo.replay es).standing id with
    | unvisited => exact absurd hs (Memo.replay_visited_of_began hb)
    | inProgress => cases hfresh.symm.trans (htold.runs.inProgress_before rfl hs)
    | resolved verdict => exact ⟨verdict, rfl⟩
  · rw [hmemo]
    exact htold.runs.frame hv (by simp)
  · rintro past next future rfl id verdict hv
    rw [Memo.lawful_append, Memo.lawful_append] at hlawful
    rw [Memo.replay_append]
    exact hlawful.1.2.resolved hv
  · rw [htold.follows.walked, htold.runs.walked_eq rfl, List.append_assoc]
  · rw [hmemo]
    exact hlawful.size_replay

end LoopSearch

namespace Sample

open LoopSearch

/-- The state after a loop over two functions that call each other. -/
def afterPing : WalkState ProjectState :=
  ((search.perform (.loop (cursor overPing))).run { project := {} }).2

/-- The two functions are begun once each, and both have a verdict when the loop is done. -/
theorem overPing_frames_memo :
    (search.perform (.loop (cursor overPing))).run { project := {} } = (.ok true, afterPing) ∧
      ∃ es, search.Told (.loop (cursor overPing)) { project := {} } es (.ok true) afterPing ∧
        (es.filterMap Event.begun?).length = 2 ∧
        ∀ d id, .began d id ∈ es → ∃ verdict, afterPing.memo.standing id = .resolved verdict := by
  have hrun : (search.perform (.loop (cursor overPing))).run { project := {} } =
      (.ok true, afterPing) := by
    refine Prod.ext ?_ rfl
    decide +kernel
  have hsize : afterPing.memo.size = 2 := by decide +kernel
  obtain ⟨⟨es, htold⟩, hframe⟩ := perform_frames_memo search (.loop (cursor overPing)) hrun
  obtain ⟨hresolved, _, _, _, hgrown⟩ := hframe es htold
  rw [hsize] at hgrown
  refine ⟨hrun, es, htold, ?_, hresolved⟩
  exact (hgrown.trans (Nat.zero_add _)).symm

end Sample

end NPlusOne
