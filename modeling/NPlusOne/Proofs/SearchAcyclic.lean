import NPlusOne.Proofs.SearchSound

namespace NPlusOne

namespace LoopSearch

variable {ρ : Type} (s : LoopSearch ρ) (holds : ρ → Prop) (met : Cursor → Prop)

/-- A false verdict can be wrong only at a function from which a cycle can be met. -/
def Complete (m : Memo) : Prop :=
  ∀ d id, met d → DeclarationId.of d.node = .ok id → m.standing id = .resolved false →
    s.Acyclic holds d → ¬ s.Reaches holds d

/-- A function in progress leads to all that the errand asks about. -/
def Nested (m : Memo) (errand : Errand) : Prop :=
  ∀ o id, met o → DeclarationId.of o.node = .ok id → m.standing id = .inProgress →
    ∀ d, errand.Calls s holds d → Relation.TransGen (s.Calls holds) o d

variable {s holds met} {n : Nat} {errand : Errand} {m : Memo} {es : List Event}
  {r : Except Failure Bool}

theorem Acyclic.callee {c d : Cursor} (h : s.Acyclic holds c) (hd : s.Calls holds c d) :
    s.Acyclic holds d :=
  fun e he => h e (.head hd he)

/-- No cycle can be met from a body whose callees call nothing. -/
theorem acyclic_of_callees {c : Cursor} (h : ∀ d e, s.Calls holds c d → ¬ s.Calls holds d e) :
    s.Acyclic holds c := by
  have hleads : ∀ d, s.Leads holds c d → d = c ∨ s.Calls holds c d := by
    intro d hd
    induction hd with
    | refl => exact .inl rfl
    | @tail b d _ hd ih =>
      rcases ih with rfl | hb
      · exact .inr hd
      · exact absurd hd (h b d hb)
  intro d hd hcycle
  obtain ⟨e, he, hback⟩ := Relation.TransGen.head'_iff.mp hcycle
  rcases hleads d hd with rfl | hd
  · rcases Relation.ReflTransGen.cases_head hback with rfl | ⟨f, hf, _⟩
    · exact h e e he he
    · exact h e f he hf
  · exact h d e hd he

theorem Nested.part {a b : Errand} (h : s.Nested holds met m b) (hp : Errand.Part s holds a b) :
    s.Nested holds met m a :=
  fun o id ho hoid hs d hd => h o id ho hoid hs d (hp.calls d hd)

theorem Nested.replay {a : Bool} {before after : Errand} (h : s.Nested holds met m after)
    (hr : s.Runs holds n before m es (.ok a)) : s.Nested holds met (m.replay es) after :=
  fun o id ho hoid hs => h o id ho hoid (hr.inProgress_before rfl hs)

theorem Nested.function {d : Cursor} {call : Option Node} {id : DeclarationId} {body : Node}
    {b : Bool} (h : s.Nested holds met m (.check d call)) (hid : Identified met) (hd : met d)
    (hdid : DeclarationId.of d.node = .ok id) (hu : m.standing id = .unvisited) :
    s.Nested holds met (m.begin id).2 (.walk (functionRoot d call id) body [d.node] b) := by
  intro o other ho hoid hs e he
  have hcall : s.Calls holds d e := (Errand.calls_function hdid).mp he
  rw [Memo.standing_begin hu] at hs
  split at hs
  next heq =>
    subst heq
    cases hid o d id ho hd hoid hdid
    exact .single hcall
  next => exact (h o other ho hoid hs d rfl).tail hcall

theorem Complete.empty : s.Complete holds met {} := by
  intro d id _ _ hs
  simp at hs

theorem Complete.begin (h : s.Complete holds met m) {id : DeclarationId}
    (hu : m.standing id = .unvisited) : s.Complete holds met (m.begin id).2 := by
  intro d other hd hdid hs
  rw [Memo.standing_begin hu] at hs
  split at hs
  next => cases hs
  next => exact h d other hd hdid hs

theorem Complete.record (h : s.Complete holds met m) (hid : Identified met) {d : Cursor}
    {id : DeclarationId} {v : Bool} (hd : met d) (hdid : DeclarationId.of d.node = .ok id)
    (hv : s.Acyclic holds d → s.Reaches holds d → v = true) :
    s.Complete holds met (m.record id v) := by
  intro e other he heid hs ha hr
  rw [Memo.standing_record] at hs
  split at hs
  next heq =>
    subst heq
    cases hid e d id he hd heid hdid
    cases hs
    cases hv ha hr
  next => exact h e other he heid hs ha hr

theorem Complete.record_true (h : s.Complete holds met m) (id : DeclarationId) :
    s.Complete holds met (m.record id true) := by
  intro d other hd hdid hs
  rw [Memo.standing_record] at hs
  split at hs
  next => cases hs
  next => exact h d other hd hdid hs

/-- False verdicts stay right but for functions from which a cycle can be met, and an errand that
calls no such function finds whatever it reaches. -/
theorem Runs.complete [HasLog ρ] (hs : s.Steady holds) (h : s.Runs holds n errand m es r)
    (hid : Identified met) (hw : errand.Within s holds met) (hn : s.Nested holds met m errand)
    (hm : s.Complete holds met m) {b : Bool} (hr : r = .ok b) :
    s.Complete holds met (m.replay es) ∧
      (errand.Located → (∀ d, errand.Calls s holds d → s.Acyclic holds d) →
        errand.Reaches s holds → b = true) := by
  induction h generalizing b with
  | nowhere hf => exact ⟨hm, fun hp => by simp [Errand.Located, hf] at hp⟩
  | unlocated | tooDeep | broken | halted | closed | misread | lost | failed => cases hr
  | emptied | done =>
    refine ⟨hm, fun _ _ hreach => ?_⟩
    simp [Errand.Reaches, Errand.Uses, Errand.Calls] at hreach
  | @loop n m c file es r hf _ ih =>
    obtain ⟨hm', ha⟩ := ih ((Errand.part_loop hf).within hw) (hn.part (Errand.part_loop hf)) hm hr
    refine ⟨hm', fun _ hac hreach => ?_⟩
    exact ha trivial (fun d hd => hac d ((Errand.part_loop hf).calls d hd))
      ((Errand.reaches_loop hf).mpr ((s.reaches_iff holds).mpr hreach))
  | @known n m d call id hdid hv hf =>
    refine ⟨hm, fun _ hac hreach => ?_⟩
    have hd : met d := hw d d rfl .refl
    have hcyc := hac d rfl
    -- A function in progress is asked about only from inside itself, which closes a cycle.
    cases hstate : m.standing id with
    | unvisited => exact absurd hstate hv
    | inProgress => exact absurd (hn d id hd hdid hstate d rfl) (hcyc d .refl)
    | resolved v =>
      rw [Memo.verdictOf_eq, hstate] at hf
      cases hf
      exact absurd (Errand.reaches_check.mp hreach) (hm d id hd hdid hstate hcyc)
  | recalled =>
    cases hr
    exact ⟨hm, fun _ _ _ => rfl⟩
  | @checked n m d call id es v hdid hv hw' ih =>
    have hd : met d := hw d d rfl .refl
    obtain ⟨hm', ha⟩ := ih (hw.function hdid) (hn.function hid hd hdid hv) (hm.begin hv) rfl
    -- From a function without cycles all that its body calls is without cycles as well.
    have hanswer : s.Acyclic holds d → s.Reaches holds d → v = true := fun hac hreach =>
      ha trivial (fun e he => hac.callee ((Errand.calls_function hdid).mp he))
        ((Errand.reaches_function hdid).mpr hreach)
    rw [Memo.replay_began, Memo.replay_walked, Memo.replay_append]
    cases hr
    refine ⟨hm'.record hid hd hdid hanswer, fun _ hac hreach => ?_⟩
    exact hanswer (hac d rfl) (Errand.reaches_check.mp hreach)
  | settled =>
    cases hr
    exact ⟨hm.record_true _, fun _ _ _ => rfl⟩
  | noted _ _ hw' ih =>
    refine ⟨(ih (Errand.part_tail.within hw) (hn.part Errand.part_tail) hm hr).1, fun _ _ _ => ?_⟩
    simpa [Errand.found] using hw'.answer_eq hr
  | @passed n m root body x xs rest found es fs reached r hu hv hc hw' ih ih' =>
    obtain ⟨hm', ha⟩ := ih (Errand.part_head.within hw) (hn.part Errand.part_head) hm rfl
    obtain ⟨hm'', ha'⟩ := ih' ((Errand.part_children hc).within hw)
      ((hn.replay hv).part (Errand.part_children hc)) hm' hr
    rw [Memo.replay_append]
    refine ⟨hm'', fun _ hac hreach => ?_⟩
    rcases hreach.cons hc hu with hreach | hreach
    · have htrue := ha trivial (fun d hd => hac d (Errand.part_head.calls d hd)) hreach
      simpa [Errand.found, htrue] using hw'.answer_eq hr
    · exact ha' trivial (fun d hd => hac d ((Errand.part_children hc).calls d hd)) hreach
  | skipped hc =>
    refine ⟨hm, fun _ _ hreach => ?_⟩
    obtain ⟨e, he, _⟩ := Errand.reaches_visit.mp hreach
    exact absurd he.1 hc
  | unnamed hc hcallee =>
    refine ⟨hm, fun _ _ hreach => ?_⟩
    obtain ⟨e, he, _⟩ := Errand.reaches_visit.mp hreach
    exact (he.unnamed hcallee).elim
  | @here n m file c callee d es r hc hcallee hd _ ih =>
    have hpart : Errand.Part s holds (.check d (some c.node)) (.visit file c) :=
      Errand.part_here hc hcallee hd
    obtain ⟨hm', ha⟩ := ih (hpart.within hw) (hn.part hpart) hm hr
    refine ⟨hm', fun _ hac hreach => ha trivial (fun d hd => hac d (hpart.calls d hd)) ?_⟩
    obtain ⟨e, he, hreach⟩ := Errand.reaches_visit.mp hreach
    exact .inr ⟨e, he.here hcallee hd, hreach⟩
  | unknown hc hcallee hd hsay =>
    refine ⟨hm, fun _ _ hreach => ?_⟩
    obtain ⟨e, he, _⟩ := Errand.reaches_visit.mp hreach
    obtain ⟨ds, hsay', _⟩ := he.elsewhere hcallee hd
    cases hs.agree hsay hsay'
  | @elsewhere n m file c callee ds es r hc hcallee hd hsay _ ih =>
    have hpart : Errand.Part s holds (.checkAll c.node ds false) (.visit file c) :=
      Errand.part_elsewhere hc hcallee hd hsay
    obtain ⟨hm', ha⟩ := ih (hpart.within hw) (hn.part hpart) hm hr
    refine ⟨hm', fun _ hac hreach => ha trivial (fun d hd => hac d (hpart.calls d hd)) ?_⟩
    obtain ⟨e, he, hreach⟩ := Errand.reaches_visit.mp hreach
    obtain ⟨ds', hsay', hmem⟩ := he.elsewhere hcallee hd
    cases hs.agree hsay hsay'
    exact .inr ⟨e, hmem, hreach⟩
  | next hv hw' ih ih' =>
    obtain ⟨hm', ha⟩ := ih (Errand.part_first.within hw) (hn.part Errand.part_first) hm rfl
    obtain ⟨hm'', ha'⟩ := ih' (Errand.part_rest.within hw)
      ((hn.replay hv).part Errand.part_rest) hm' hr
    rw [Memo.replay_append]
    refine ⟨hm'', fun _ hac hreach => ?_⟩
    rcases hreach.definitions with hreach | hreach
    · have htrue := ha trivial (fun d hd => hac d (Errand.part_first.calls d hd)) hreach
      simpa [Errand.found, htrue] using hw'.answer_eq hr
    · exact ha' trivial (fun d hd => hac d (Errand.part_rest.calls d hd)) hreach

theorem Nested.of_idle (h : ∀ id, m.standing id ≠ .inProgress) (errand : Errand) :
    s.Nested holds met m errand :=
  fun _ id _ _ hs => absurd hs (h id)

theorem Acyclic.calls_errand {step : Step} {d : Cursor} (h : s.Acyclic holds step.root)
    (hd : step.errand.Calls s holds d) : s.Acyclic holds d := by
  cases step with
  | loop c => exact h.callee hd
  | function c call =>
    cases hd
    exact h

section Steps

variable {steps : List Step} {rs : List (Except Failure Bool)}

theorem RunsAll.recorded_met (h : s.RunsAll holds steps m es rs)
    (hw : ∀ step ∈ steps, step.errand.Within s holds met) {id : DeclarationId} {v : Bool}
    (hv : Event.recorded id v ∈ es) : ∃ d, met d ∧ DeclarationId.of d.node = .ok id := by
  induction h with
  | nil => cases hv
  | @cons m step steps es fs r rs hr _ ih =>
    rcases List.mem_append.mp hv with hv | hv
    · rcases hr.recorded_begun hv with ⟨d, hd⟩ | ⟨ho, _⟩
      · exact ⟨d, hr.began_met (hw step List.mem_cons_self) hd, (hr.began_fresh hd).1⟩
      · simp at ho
    · exact ih (fun other ho => hw other (List.mem_cons_of_mem step ho)) hv

variable [HasLog ρ]

theorem RunsAll.complete (hs : s.Steady holds) (h : s.RunsAll holds steps m es rs)
    (hid : Identified met) (hw : ∀ step ∈ steps, step.errand.Within s holds met)
    (hok : ∀ r ∈ rs, ∃ b, r = .ok b) (hidle : ∀ id, m.standing id ≠ .inProgress)
    (hm : s.Complete holds met m) :
    s.Complete holds met (m.replay es) ∧
      ∀ step b, (step, .ok b) ∈ steps.zip rs → step.root.node.file?.isSome = true →
        s.Acyclic holds step.root → s.Reaches holds step.root → b = true := by
  induction h with
  | nil => exact ⟨hm, by simp⟩
  | @cons m step steps es fs r rs hr _ ih =>
    obtain ⟨b, rfl⟩ := hok r List.mem_cons_self
    obtain ⟨hm', ha⟩ := hr.complete hs hid (hw step List.mem_cons_self)
      (Nested.of_idle hidle step.errand) hm rfl
    obtain ⟨hm'', ha'⟩ := ih (fun other ho => hw other (List.mem_cons_of_mem step ho))
      (fun r hr => hok r (List.mem_cons_of_mem _ hr))
      (fun id hp => hidle id (hr.inProgress_before rfl hp)) hm'
    rw [Memo.replay_append]
    refine ⟨hm'', fun other a ho hfile hac hreach => ?_⟩
    rcases List.mem_cons.mp ho with heq | ho
    · cases heq
      exact ha (Step.located_errand hfile) (fun d hd => hac.calls_errand hd)
        (reaches_root.mpr hreach)
    · exact ha' other a ho hfile hac hreach

variable {p : ρ}

theorem performAll_answer_iff (hs : s.Steady holds) (hp : holds p)
    (hid : Identified (s.Met holds steps))
    (hok : ∀ r ∈ (s.performAll steps { project := p }).1, ∃ b, r = .ok b) {step : Step} {b : Bool}
    (h : (step, .ok b) ∈ steps.zip (s.performAll steps { project := p }).1)
    (ha : s.Acyclic holds step.root) :
    b = true ↔ step.root.node.file?.isSome = true ∧ s.Reaches holds step.root := by
  obtain ⟨es, hr, _⟩ := tells_performAll hs.toKeeps steps { project := p } hp
  constructor
  · rintro rfl
    obtain ⟨_, _, hrun⟩ := hr.runs h
    exact ⟨hrun.located, (hr.sound hid (fun _ => within_met) Sound.empty).2 step h⟩
  · rintro ⟨hfile, hreach⟩
    exact (hr.complete hs hid (fun _ => within_met) hok (by simp) Complete.empty).2
      step b h hfile ha hreach

theorem performAll_verdict_iff (hs : s.Steady holds) (hp : holds p)
    (hid : Identified (s.Met holds steps))
    (hok : ∀ r ∈ (s.performAll steps { project := p }).1, ∃ b, r = .ok b) {id : DeclarationId}
    {v : Bool} (h : (s.performAll steps { project := p }).2.memo.standing id = .resolved v) :
    ∃ d, s.Met holds steps d ∧ DeclarationId.of d.node = .ok id ∧
      (s.Acyclic holds d → (v = true ↔ s.Reaches holds d)) := by
  obtain ⟨es, hr, hf⟩ := tells_performAll hs.toKeeps steps { project := p } hp
  rw [hf.memo] at h
  have hrecorded : Event.recorded id v ∈ es := (Memo.replay_resolved h).resolve_left (by simp)
  obtain ⟨d, hd, hdid⟩ := hr.recorded_met (fun _ => within_met) hrecorded
  refine ⟨d, hd, hdid, fun ha => ?_⟩
  have hsound := Sound.empty.replay hid (hr.sound hid (fun _ => within_met) Sound.empty).1
  have hcomplete := (hr.complete hs hid (fun _ => within_met) hok (by simp) Complete.empty).1
  cases v with
  | true => simpa using hsound d id hd hdid h
  | false => simpa using hcomplete d id hd hdid h ha

theorem performAll_flags_iff (hs : s.Steady holds) (hp : holds p)
    (hid : Identified (s.Met holds steps))
    (hok : ∀ r ∈ (s.performAll steps { project := p }).1, ∃ b, r = .ok b) {step : Step}
    (ha : s.Acyclic holds step.root) :
    (step, .ok true) ∈ steps.zip (s.performAll steps { project := p }).1 ↔
      step ∈ steps ∧ step.root.node.file?.isSome = true ∧ s.Reaches holds step.root := by
  constructor
  · intro h
    exact ⟨(List.of_mem_zip h).1, (performAll_answer_iff hs hp hid hok h ha).mp rfl⟩
  · rintro ⟨hstep, hflag⟩
    obtain ⟨es, hr, _⟩ := tells_performAll hs.toKeeps steps { project := p } hp
    obtain ⟨r, hzip⟩ := hr.answered hstep
    obtain ⟨b, rfl⟩ := hok r (List.of_mem_zip hzip).2
    cases (performAll_answer_iff hs hp hid hok hzip ha).mpr hflag
    exact hzip

/-- No query is missed outside recursion. Where no step fails, a root from which no cycle can be met
is answered true exactly when it lies in a file and reaches a query, the verdicts of such functions
are those of the expansion graph, and without cycles the order of the steps does not matter. -/
theorem performAll_exact_of_acyclic (hs : s.Steady holds) {p : ρ} (hp : holds p)
    (steps : List Step) (hid : Identified (s.Met holds steps))
    (hok : ∀ r ∈ (s.performAll steps { project := p }).1, ∃ b, r = .ok b) :
    (∀ step b, (step, .ok b) ∈ steps.zip (s.performAll steps { project := p }).1 →
      s.Acyclic holds step.root →
        (b = true ↔ step.root.node.file?.isSome = true ∧ s.Reaches holds step.root)) ∧
      (∀ id v, (s.performAll steps { project := p }).2.memo.standing id = .resolved v →
        ∃ d, s.Met holds steps d ∧ DeclarationId.of d.node = .ok id ∧
          (s.Acyclic holds d → (v = true ↔ s.Reaches holds d))) ∧
      ∀ others, steps.Perm others →
        (∀ r ∈ (s.performAll others { project := p }).1, ∃ b, r = .ok b) →
        (∀ step ∈ steps, s.Acyclic holds step.root) →
        ∀ step, (step, .ok true) ∈ steps.zip (s.performAll steps { project := p }).1 ↔
          (step, .ok true) ∈ others.zip (s.performAll others { project := p }).1 := by
  refine ⟨fun step b h ha => performAll_answer_iff hs hp hid hok h ha,
    fun id v h => performAll_verdict_iff hs hp hid hok h, ?_⟩
  intro others hperm hok' hac step
  have hid' : Identified (s.Met holds others) :=
    hid.mono fun d hd => hd.mono fun _ => hperm.mem_iff.mpr
  by_cases hstep : step ∈ steps
  · rw [performAll_flags_iff hs hp hid hok (hac step hstep),
      performAll_flags_iff hs hp hid' hok' (hac step hstep), hperm.mem_iff]
  · have hstep' : step ∉ others := fun h => hstep (hperm.mem_iff.mpr h)
    constructor
    · exact fun h => absurd (List.of_mem_zip h).1 hstep
    · exact fun h => absurd (List.of_mem_zip h).1 hstep'

end Steps

end LoopSearch

namespace Sample

open LoopSearch

theorem overLeaf_acyclic : search.Acyclic resolver.Consistent (cursor overLeaf) := by
  apply acyclic_of_callees
  intro d e hd he
  rw [calls_iff_mem_calleesHere rfl] at hd
  cases List.mem_singleton.mp hd
  rw [calls_iff_mem_calleesHere rfl] at he
  cases he

/-- The recursive functions come first and leave a wrong verdict behind. -/
theorem overLeaf_exact :
    (search.performAll [.loop (cursor overPing), .loop (cursor overLeaf)] { project := {} }).1 =
        [.ok true, .ok true] ∧ search.Acyclic resolver.Consistent (cursor overLeaf) ∧
      search.Reaches resolver.Consistent (cursor overLeaf) := by
  have hruns : (search.performAll [.loop (cursor overPing), .loop (cursor overLeaf)]
      { project := {} }).1 = [.ok true, .ok true] := by
    decide +kernel
  have hexact := (performAll_exact_of_acyclic steady .empty
    [.loop (cursor overPing), .loop (cursor overLeaf)] (identified (by simp [loops]))
    (by simp [hruns])).1
  rw [hruns] at hexact
  have hiff := hexact (.loop (cursor overLeaf)) true (by simp) overLeaf_acyclic
  exact ⟨hruns, overLeaf_acyclic, (hiff.mp rfl).2⟩

theorem adrift_acyclic : search.Acyclic resolver.Consistent (cursor adrift) := by
  apply acyclic_of_callees
  intro d e hd
  rw [calls_iff_mem_calleesHere rfl] at hd
  cases hd

/-- Without any recursion, a loop in no file is answered false although it uses a query itself. -/
theorem adrift_missed_after_overLeaf :
    search.Steady resolver.Consistent ∧
      Identified (search.Met resolver.Consistent [.loop (cursor overLeaf), .loop (cursor adrift)]) ∧
      (search.performAll [.loop (cursor overLeaf), .loop (cursor adrift)] { project := {} }).1 =
        [.ok true, .ok false] ∧
      search.Acyclic resolver.Consistent (cursor adrift) ∧
      search.Reaches resolver.Consistent (cursor adrift) :=
  ⟨steady, identified (by simp [loops]), by decide +kernel, adrift_acyclic,
    .use (uses_iff_any_listed.mpr rfl)⟩

end Sample

end NPlusOne
