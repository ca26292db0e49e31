import Mathlib.Data.Set.List
import NPlusOne.Proofs.ResolverRun
import NPlusOne.Proofs.SearchSound

namespace NPlusOne

/-- How many reports were skipped because their target lies in no file. -/
def ProjectState.skips (p : ProjectState) : Nat :=
  p.cache.log.toList.count Report.skipped

theorem ProjectState.skips_append (entry : Log.Entry) (p : ProjectState) :
    (HasLog.append entry p).skips = p.skips + if entry = Report.skipped then 1 else 0 := by
  simp [skips, HasLog.append, List.count_append, List.count_singleton]

theorem ne_skipped_of_channel {entry : Log.Entry} (h : entry.channel ≠ .walk) :
    entry ≠ Report.skipped := by
  rintro rfl
  exact h rfl

/-- The resolver has warnings of its own, but never that one. -/
theorem Resolver.preserves_skips (r : Resolver) (k : Nat) :
    r.Preserves fun p => p.skips = k where
  load path p hp := by
    obtain ⟨entries, hlog, hchannel⟩ := (FrontEnd.loads_load r.frontEnd path p.cache).log_eq
    have hcount : entries.count Report.skipped = 0 := by
      refine List.count_eq_zero.mpr fun hmem => ?_
      cases hchannel _ hmem
    rw [ProjectState.skips, hlog, List.count_append, hcount]
    exact hp
  log entry p hc hp := by simpa [ProjectState.skips_append, ne_skipped_of_channel hc] using hp
  index _ _ _ hp := hp

namespace Event

theorem filterMap_report? (message : String) (es : List Event) :
    es.filterMap (report? message) =
      (es.filterMap target?).filterMap fun target => target.bind (Report.atNode? · message) := by
  rw [List.filterMap_filterMap]
  refine List.filterMap_congr fun e _ => ?_
  cases e <;> rfl

theorem any_isReport (es : List Event) :
    es.any isReport = true ↔ es.filterMap target? ≠ [] := by
  induction es with
  | nil => simp
  | cons e es ih =>
    cases e with
    | reported target about => simp [isReport, target?]
    | began | walked | recorded => simpa [isReport, target?] using ih

end Event

namespace LoopSearch

variable {r : Resolver} {s : LoopSearch ProjectState}

/-- Every report that was tried in vain has left its warning, and nothing else has. -/
theorem tracks_skips (hr : s.resolve = r.resolve) :
    s.Tracks (fun _ => True) fun p targets q => q.skips =
      p.skips + targets.countP fun target => (target.bind (Report.atNode? · s.message)).isNone where
  resolve _ _ _ := trivial
  append _ _ _ := trivial
  refl p := by simp
  trans h h' := by rw [h', h, List.countP_append, Nat.add_assoc]
  kept p h := by simp [Option.isSome_iff_ne_none.mp h]
  skipped p h := by simp [ProjectState.skips_append, h]
  asked callee p := by
    rw [hr]
    exact (r.preserves_skips p.skips).resolve callee p rfl
  logged p h := by simp [ProjectState.skips_append, h]

theorem isSome_atNode? (n : Node) (message : String) :
    (Report.atNode? n message).isSome = n.file?.isSome := by
  simp [Report.atNode?, Node.file?]

/-- The loop itself, or a call by a plain name in a body that was walked. -/
def Reportable (loop : Cursor) (walked : List Cursor) (target : Node) : Prop :=
  target = loop.node ∨ ∃ body ∈ walked, body.node.Contains target ∧ target.kind = .call ∧
    ∃ callee, Cursor.simpleCallee ⟨body.unit, target⟩ = .ok (some callee)

variable {ρ : Type} {q : LoopSearch ρ} {holds : ρ → Prop} {n : Nat} {m : Memo} {es : List Event}
  {res : Except Failure Bool}

theorem Expands.named {file : Option String} {call d : Cursor} (h : q.Expands holds file call d) :
    ∃ callee, call.simpleCallee = .ok (some callee) := by
  cases h with
  | here hs => exact ⟨_, hs⟩
  | elsewhere hs => exact ⟨_, hs⟩

/-- The reports that a loop leads to are tried at nodes, and its answer tells whether there are
any. -/
theorem Runs.loop_targets {loop : Cursor} {b : Bool}
    (h : q.Runs holds n (.loop loop) m es (.ok b)) :
    ∃ targets : List Node, es.filterMap Event.target? = targets.map some ∧
      (b = true ↔ targets ≠ []) ∧
      ∀ target ∈ targets, Reportable loop (es.filterMap Event.walked?) target := by
  have hplaced : ∀ target ∈ es.filterMap Event.target?, ∃ node, target = some node ∧
      Reportable loop (es.filterMap Event.walked?) node := by
    intro target ht
    obtain ⟨e, hmem, he⟩ := List.mem_filterMap.mp ht
    cases e with
    | began | walked | recorded => cases he
    | reported target' about =>
      cases he
      have hp : (Errand.loop loop).Proper fun _ => True := trivial
      rcases h.placed hp (fun _ _ _ _ => trivial) hmem with ⟨_, rfl⟩ | ⟨body, hb, hat⟩
      · exact ⟨loop.node, rfl, .inl rfl⟩
      · obtain ⟨node, rfl, hc, hk, hx⟩ := hat
        exact ⟨node, rfl, .inr ⟨body, List.mem_filterMap.mpr ⟨_, hb, rfl⟩, hc, hk, hx.named⟩⟩
  have hanswer : b = true ↔ es.filterMap Event.target? ≠ [] := by
    rw [h.answer_eq rfl, ← Event.any_isReport]
    simp [Errand.found]
  have hsome : es.filterMap Event.target? ∈ Set.range (List.map some) := by
    rw [Set.range_list_map]
    intro target ht
    obtain ⟨node, rfl, _⟩ := hplaced target ht
    exact ⟨node, rfl⟩
  obtain ⟨targets, htargets⟩ := hsome
  rw [← htargets] at hplaced hanswer
  refine ⟨targets, htargets.symm, by simpa using hanswer, fun target hmem => ?_⟩
  obtain ⟨node, heq, hnode⟩ := hplaced (some target) (List.mem_map_of_mem hmem)
  cases heq
  exact hnode

/-- A check of a loop that ends well answers true exactly when it tried a report. It reports at the
loop or at calls by a plain name in the bodies that it walked, and each report that it tried is
either kept or skipped with a warning; none is skipped where all these calls lie in files. -/
theorem checkLoop_answers_reports (hr : s.resolve = r.resolve) {loop : Cursor}
    {st st' : WalkState ProjectState} {b : Bool} (hrun : (s.checkLoop loop).run st = (.ok b, st')) :
    ∃ (targets : List Node) (walked : List Cursor),
      st'.reports = st.reports ++ targets.filterMap (Report.atNode? · s.message) ∧
      st'.project.skips = st.project.skips + targets.countP (·.file?.isNone) ∧
      st'.walked = st.walked ++ walked ∧ (b = true ↔ targets ≠ []) ∧
      (∀ target ∈ targets, Reportable loop walked target) ∧
      ((∀ body ∈ walked, ∀ call, body.node.Contains call → call.kind = .call →
        call.file?.isSome = true) → (b = true ↔ st'.reports ≠ st.reports)) := by
  obtain ⟨es, hruns, hf⟩ := recounts_checkLoop (tracks_skips hr) loop st trivial
  rw [hrun] at hruns hf
  obtain ⟨targets, htargets, hb, hreportable⟩ := hruns.loop_targets
  have hreports : st'.reports = st.reports ++ targets.filterMap (Report.atNode? · s.message) := by
    rw [hf.reports, Event.filterMap_report?, htargets, List.filterMap_map]
    rfl
  have hskips : st'.project.skips = st.project.skips + targets.countP (·.file?.isNone) := by
    rw [hf.told, htargets, List.countP_map]
    congr 2
    funext target
    simp only [Function.comp_apply, Option.bind_some, ← Option.not_isSome, isSome_atNode?]
  refine ⟨targets, es.filterMap Event.walked?, hreports, hskips, hf.walked, hb, hreportable, ?_⟩
  intro hcalls
  rw [hreports]
  constructor
  · rintro rfl
    obtain ⟨target, hmem⟩ := List.exists_mem_of_ne_nil targets (hb.mp rfl)
    have hlocated : target.file?.isSome = true := by
      rcases hreportable target hmem with rfl | ⟨body, hbody, hc, hk, _⟩
      · have hstep : s.Runs _ _ (Step.loop loop).errand st.memo es (.ok true) := hruns
        exact hstep.located
      · exact hcalls body hbody target hc hk
    obtain ⟨report, hreport⟩ := Option.isSome_iff_exists.mp
      ((isSome_atNode? target s.message).trans hlocated)
    have hmade : report ∈ targets.filterMap (Report.atNode? · s.message) :=
      List.mem_filterMap.mpr ⟨target, hmem, hreport⟩
    simpa using List.ne_nil_of_mem hmade
  · intro hne
    rw [hb]
    rintro rfl
    simp at hne

end LoopSearch

namespace Sample

open LoopSearch

/-- The query behind the two functions is reported, at a call. -/
theorem overPing_reported :
    ((search.checkLoop (cursor overPing)).run { project := {} }).1 = .ok true ∧
      ((search.checkLoop (cursor overPing)).run { project := {} }).2.reports ≠ [] := by
  have hanswer : ((search.checkLoop (cursor overPing)).run { project := {} }).1 = .ok true := by
    decide +kernel
  have hcalls : ((search.checkLoop (cursor overPing)).run { project := {} }).2.walked.all
      (fun body => body.calls.all (·.file?.isSome)) = true := by
    decide +kernel
  obtain ⟨_, walked, _, _, hw, _, _, hlocated⟩ :=
    checkLoop_answers_reports (r := resolver) rfl (Prod.ext hanswer rfl)
  refine ⟨hanswer, (hlocated fun body hbody call hc hk => ?_).mp rfl⟩
  have hmem : body ∈ ((search.checkLoop (cursor overPing)).run { project := {} }).2.walked := by
    rw [hw]
    exact List.mem_append_right _ hbody
  have hcall : call ∈ body.calls :=
    List.mem_filter.mpr ⟨Node.contains_iff_mem_listed.mp hc, by simpa using hk⟩
  exact List.all_eq_true.mp (List.all_eq_true.mp hcalls body hmem) call hcall

end Sample

end NPlusOne
