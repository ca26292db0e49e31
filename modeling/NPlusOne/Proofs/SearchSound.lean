import NPlusOne.Proofs.CallListing
import NPlusOne.Proofs.SearchMemo
import NPlusOne.Proofs.SearchSteps

namespace NPlusOne

namespace LoopSearch

variable {ρ : Type} (s : LoopSearch ρ) (holds : ρ → Prop) (met : Cursor → Prop)

/-- True verdicts stand only at functions that reach a query. -/
def Sound (m : Memo) : Prop :=
  ∀ d id, met d → DeclarationId.of d.node = .ok id → m.standing id = .resolved true →
    s.Reaches holds d

/-- The report stands at a call of the body, and the call is expanded to what it is about. -/
def AtCall (body : Cursor) (target : Option Node) (about : Cursor) : Prop :=
  ∃ n, target = some n ∧ body.node.Contains n ∧ n.kind = .call ∧
    s.Expands holds body.node.file? ⟨body.unit, n⟩ about

/-- The report stands where uses in the body itself are reported: at `site`, or else at the use. -/
def AtUse (body : Cursor) (site target : Option Node) : Prop :=
  target = site ∨ site = none ∧
    ∃ n, target = some n ∧ body.node.Contains n ∧ s.isQueryUse body.unit n = true

end LoopSearch

/-- A true verdict is that of a function which reaches a query, and a report is about one. -/
def Event.Justified {ρ : Type} (s : LoopSearch ρ) (holds : ρ → Prop) (met : Cursor → Prop) :
    Event → Prop
  | recorded id true => ∃ d, met d ∧ DeclarationId.of d.node = .ok id ∧ s.Reaches holds d
  | reported _ about => s.Reaches holds about
  | _ => True

namespace Errand

/-- Where an errand reports on its own account, and about what. -/
def Aims {ρ : Type} (s : LoopSearch ρ) (holds : ρ → Prop) :
    Errand → Option Node → Cursor → Prop
  | loop c, target, about => about = c ∧ target = some c.node
  | check d call, target, about => about = d ∧ s.AtUse d call target
  | walk root body _ _, target, about =>
    about = ⟨root.unit, body⟩ ∧ s.AtUse ⟨root.unit, body⟩ root.target target ∨
      s.AtCall holds ⟨root.unit, body⟩ target about
  | visit file c, target, about => target = some c.node ∧ c.node.kind = .call ∧
      s.Expands holds (some file) c about
  | checkAll call ds _, target, about => target = some call ∧ about ∈ ds

variable {met : Cursor → Prop}

/-- A walk takes its nodes from the body that it says it walks. -/
def Proper (met : Cursor → Prop) : Errand → Prop
  | walk root body stack _ => (∀ x ∈ stack, body.Contains x) ∧ body.file? = some root.file ∧
      ∀ id, root.function = some id → DeclarationId.of body = .ok id ∧ met ⟨root.unit, body⟩
  | _ => True

theorem proper_function {d : Cursor} {call : Option Node} {id : DeclarationId} {b : Bool}
    (hid : DeclarationId.of d.node = .ok id) (hd : met d) :
    (walk (LoopSearch.functionRoot d call id) d.node [d.node] b).Proper met := by
  refine ⟨by simpa using Node.Contains.self d.node, DeclarationId.file_of hid, ?_⟩
  rintro _ ⟨⟩
  exact ⟨hid, hd⟩

theorem proper_loop {c : Cursor} {file : String} {b : Bool} (hf : c.node.file? = some file) :
    (walk (LoopSearch.loopRoot c file) c.node [c.node] b).Proper met :=
  ⟨by simpa using Node.Contains.self c.node, hf, by simp⟩

theorem Proper.tail {root : WalkRoot} {body x : Node} {rest : List Node} {b b' : Bool}
    (h : (walk root body (x :: rest) b).Proper met) : (walk root body rest b').Proper met :=
  ⟨fun y hy => h.1 y (List.mem_cons_of_mem x hy), h.2⟩

theorem Proper.children {root : WalkRoot} {body x : Node} {xs rest : List Node} {b b' : Bool}
    (h : (walk root body (x :: rest) b).Proper met) (hc : x.children = .ok xs) :
    (walk root body (xs ++ rest) b').Proper met := by
  refine ⟨fun y hy => ?_, h.2⟩
  rcases List.mem_append.mp hy with hy | hy
  · exact (h.1 x List.mem_cons_self).trans (.under hc hy (.self y))
  · exact h.1 y (List.mem_cons_of_mem x hy)

end Errand

theorem Step.proper {met : Cursor → Prop} (step : Step) : step.errand.Proper met := by
  cases step <;> trivial

namespace LoopSearch

variable {ρ : Type} {s : LoopSearch ρ} {holds : ρ → Prop} {met : Cursor → Prop} {n : Nat}
  {errand : Errand} {m : Memo} {es : List Event} {r : Except Failure Bool}

theorem Sound.empty : s.Sound holds met {} := by
  intro d id _ _ hs
  simp at hs

theorem Sound.replay (hid : Identified met) (h : s.Sound holds met m)
    (hj : ∀ e ∈ es, e.Justified s holds met) : s.Sound holds met (m.replay es) := by
  intro d id hd hdid hs
  rcases Memo.replay_resolved hs with hs | hm
  · exact h d id hd hdid hs
  · obtain ⟨c, hc, hcid, hreach⟩ := hj _ hm
    rwa [← hid c d id hc hd hcid hdid]

theorem Sound.begin (hid : Identified met) (h : s.Sound holds met m) (d : Cursor)
    (id : DeclarationId) : s.Sound holds met (m.begin id).2 :=
  have hj : ∀ e ∈ [Event.began d id], e.Justified s holds met := by simp [Event.Justified]
  h.replay hid hj

/-- What a run reports reaches a query, and so does every function that it records as true; it says
yes only where a use was found before or is reached. -/
theorem Runs.sound (h : s.Runs holds n errand m es r) (hid : Identified met)
    (hw : errand.Within s holds met) (hp : errand.Proper met) (hm : s.Sound holds met m) :
    (∀ e ∈ es, e.Justified s holds met) ∧
      (r = .ok true → errand.found = true ∨ errand.Reaches s holds) := by
  induction h with
  | nowhere | unlocated | known | skipped | misread | unnamed | lost | unknown => simp
  | tooDeep => simp [Event.Justified]
  | emptied | done => exact ⟨by simp, fun hr => .inl (by simpa [Errand.found] using hr)⟩
  | @loop n m c file es r hf _ ih =>
    obtain ⟨hj, ha⟩ := ih ((Errand.part_loop hf).within hw) (Errand.proper_loop hf) hm
    refine ⟨by simpa [Event.Justified] using hj, fun hr => ?_⟩
    rcases ha hr with hfalse | hreach
    · cases hfalse
    · exact .inr ((Errand.part_loop hf).reaches hreach)
  | @recalled n m d call id hdid hv =>
    have hreach := hm d id (hw d d rfl .refl) hdid (Memo.verdictOf_eq_true_iff.mp hv)
    exact ⟨by simpa [Event.Justified] using hreach, fun _ => .inr (Errand.reaches_check.mpr hreach)⟩
  | @broken n m d call id es e hdid hu _ ih =>
    obtain ⟨hj, _⟩ := ih (hw.function hdid) (Errand.proper_function hdid (hw d d rfl .refl))
      (hm.begin hid d id)
    exact ⟨by simpa [Event.Justified] using hj, by simp⟩
  | @checked n m d call id es v hdid hu _ ih =>
    -- The verdict is the answer of the walk, so a true one is that of the function.
    have hd : met d := hw d d rfl .refl
    obtain ⟨hj, ha⟩ := ih (hw.function hdid) (Errand.proper_function hdid hd) (hm.begin hid d id)
    have hreach : v = true → s.Reaches holds d := by
      rintro rfl
      rcases ha rfl with hfalse | hreach
      · cases hfalse
      · exact (Errand.reaches_function hdid).mp hreach
    refine ⟨?_, fun hr => .inr (Errand.reaches_check.mpr (hreach (by simpa using hr)))⟩
    simp only [List.mem_cons, List.mem_append, List.not_mem_nil, or_false]
    rintro e (rfl | rfl | he | rfl)
    · trivial
    · trivial
    · exact hj e he
    · cases v with
      | false => trivial
      | true => exact ⟨d, hd, hdid, hreach rfl⟩
  | @settled n m root body x rest found id hu hf =>
    have huse : s.Reaches holds ⟨root.unit, body⟩ := .use ⟨x, hp.1 x List.mem_cons_self, hu⟩
    obtain ⟨hdid, hmet⟩ := hp.2.2 id hf
    refine ⟨?_, fun _ => .inr (.inl ⟨x, List.mem_cons_self, x, .self x, hu⟩)⟩
    simp only [List.mem_cons, List.not_mem_nil, or_false]
    rintro e (rfl | rfl)
    · exact huse
    · exact ⟨⟨root.unit, body⟩, hmet, hdid, huse⟩
  | @noted n m root body x rest found es r hu hf _ ih =>
    have huse : s.Reaches holds ⟨root.unit, body⟩ := .use ⟨x, hp.1 x List.mem_cons_self, hu⟩
    obtain ⟨hj, _⟩ := ih (Errand.part_tail.within hw) hp.tail hm
    refine ⟨?_, fun _ => .inr (.inl ⟨x, List.mem_cons_self, x, .self x, hu⟩)⟩
    simp only [List.mem_cons]
    rintro e (rfl | he)
    · exact huse
    · exact hj e he
  | halted _ _ ih | closed _ _ _ ih =>
    exact ⟨(ih (Errand.part_head.within hw) trivial hm).1, by simp⟩
  | @passed n m root body x xs rest found es fs reached r hu _ hc _ ih ih' =>
    obtain ⟨hj, ha⟩ := ih (Errand.part_head.within hw) trivial hm
    obtain ⟨hj', ha'⟩ := ih' ((Errand.part_children hc).within hw) (hp.children hc)
      (hm.replay hid hj)
    refine ⟨fun e he => (List.mem_append.mp he).elim (hj e) (hj' e), fun hr => ?_⟩
    exact Errand.found_or_reaches Errand.part_head (Errand.part_children hc) rfl
      (fun hreached => ha (congrArg _ hreached)) (ha' hr)
  | @here n m file c callee d es r hc hs hd _ ih =>
    obtain ⟨hj, ha⟩ := ih ((Errand.part_here hc hs hd).within hw) trivial hm
    exact ⟨hj, fun hr => (ha hr).imp id (Errand.part_here hc hs hd).reaches⟩
  | @elsewhere n m file c callee ds es r hc hs hd hsay _ ih =>
    obtain ⟨hj, ha⟩ := ih ((Errand.part_elsewhere hc hs hd hsay).within hw) trivial hm
    exact ⟨hj, fun hr => (ha hr).imp id (Errand.part_elsewhere hc hs hd hsay).reaches⟩
  | failed _ ih => exact ⟨(ih (Errand.part_first.within hw) trivial hm).1, by simp⟩
  | @next n m call d ds found es fs reached r _ _ ih ih' =>
    obtain ⟨hj, ha⟩ := ih (Errand.part_first.within hw) trivial hm
    obtain ⟨hj', ha'⟩ := ih' (Errand.part_rest.within hw) trivial (hm.replay hid hj)
    refine ⟨fun e he => (List.mem_append.mp he).elim (hj e) (hj' e), fun hr => ?_⟩
    exact Errand.found_or_reaches Errand.part_first Errand.part_rest rfl
      (fun hreached => ha (congrArg _ hreached)) (ha' hr)

theorem AtUse.target_eq {body : Cursor} {site : Node} {target : Option Node}
    (h : s.AtUse body (some site) target) : target = some site := by
  rcases h with h | ⟨hnone, _⟩
  · exact h
  · cases hnone

theorem atUse_report {root : WalkRoot} {body x : Node} (h : body.Contains x)
    (hu : s.isQueryUse root.unit x = true) :
    s.AtUse ⟨root.unit, body⟩ root.target (root.target <|> some x) := by
  cases root.target with
  | none => exact .inr ⟨rfl, x, rfl, h, hu⟩
  | some site => exact .inl rfl

/-- Every report stands where the errand aims or at a call in a body that was walked. -/
theorem Runs.placed (h : s.Runs holds n errand m es r) (hp : errand.Proper met)
    (hw : errand.Within s holds met) {target : Option Node} {about : Cursor}
    (hr : Event.reported target about ∈ es) :
    errand.Aims s holds target about ∨
      ∃ body, Event.walked body ∈ es ∧ s.AtCall holds body target about := by
  induction h with
  | nowhere | unlocated | known | tooDeep | emptied | skipped | misread | unnamed | lost | unknown
  | done => simp at hr
  | @loop n m c file es r hf _ ih =>
    rcases ih (Errand.proper_loop hf) ((Errand.part_loop hf).within hw) (by simpa using hr) with
      (⟨rfl, ht⟩ | hc) | ⟨body, hb, hc⟩
    · -- A loop is the site of all uses in its own body.
      exact .inl ⟨rfl, ht.target_eq⟩
    · exact .inr ⟨c, List.mem_cons_self, hc⟩
    · exact .inr ⟨body, List.mem_cons_of_mem _ hb, hc⟩
  | recalled =>
    simp only [List.mem_singleton, Event.reported.injEq] at hr
    obtain ⟨rfl, rfl⟩ := hr
    exact .inl ⟨rfl, .inl rfl⟩
  | @broken n m d call id es _ hdid _ _ ih | @checked n m d call id es _ hdid _ _ ih =>
    rcases ih (Errand.proper_function hdid (hw d d rfl .refl)) (hw.function hdid)
      (by simpa using hr) with (⟨rfl, ht⟩ | hc) | ⟨body, hb, hc⟩
    · exact .inl ⟨rfl, ht⟩
    · exact .inr ⟨d, by simp, hc⟩
    · exact .inr ⟨body, by simp [hb], hc⟩
  | @settled n m root body x rest found id hu hf =>
    simp only [List.mem_cons, Event.reported.injEq, reduceCtorEq, List.not_mem_nil, or_false] at hr
    obtain ⟨rfl, rfl⟩ := hr
    exact .inl (.inl ⟨rfl, atUse_report (hp.1 x List.mem_cons_self) hu⟩)
  | @noted n m root body x rest found es r hu hf _ ih =>
    rcases List.mem_cons.mp hr with he | hm
    · cases he
      exact .inl (.inl ⟨rfl, atUse_report (hp.1 x List.mem_cons_self) hu⟩)
    · rcases ih hp.tail (Errand.part_tail.within hw) hm with haim | ⟨body, hb, hc⟩
      · exact .inl haim
      · exact .inr ⟨body, List.mem_cons_of_mem _ hb, hc⟩
  | @halted n m root body x rest _ _ _ _ _ ih | @closed n m root body x rest _ _ _ _ _ _ _ ih =>
    rcases ih trivial (Errand.part_head.within hw) hr with ⟨rfl, hk, he⟩ | hwalked
    · exact .inl (.inr ⟨x, rfl, hp.1 x List.mem_cons_self, hk, hp.2.1 ▸ he⟩)
    · exact .inr hwalked
  | @passed n m root body x xs rest found es fs reached r _ _ hc _ ih ih' =>
    rcases List.mem_append.mp hr with hm | hm
    · rcases ih trivial (Errand.part_head.within hw) hm with ⟨rfl, hk, he⟩ | ⟨body, hb, hat⟩
      · exact .inl (.inr ⟨x, rfl, hp.1 x List.mem_cons_self, hk, hp.2.1 ▸ he⟩)
      · exact .inr ⟨body, List.mem_append_left _ hb, hat⟩
    · rcases ih' (hp.children hc) ((Errand.part_children hc).within hw) hm with
        haim | ⟨body, hb, hat⟩
      · exact .inl haim
      · exact .inr ⟨body, List.mem_append_right _ hb, hat⟩
  | @here n m file c callee d es r hc hs hd _ ih =>
    rcases ih trivial ((Errand.part_here hc hs hd).within hw) hr with ⟨rfl, ht⟩ | hwalked
    · exact .inl ⟨ht.target_eq, hc, .here hs hd⟩
    · exact .inr hwalked
  | @elsewhere n m file c callee ds es r hc hs hd hsay _ ih =>
    rcases ih trivial ((Errand.part_elsewhere hc hs hd hsay).within hw) hr with
      ⟨rfl, hmem⟩ | hwalked
    · exact .inl ⟨rfl, hc, .elsewhere hs hd hsay hmem⟩
    · exact .inr hwalked
  | @failed n m call d ds found es e _ ih =>
    rcases ih trivial (Errand.part_first.within hw) hr with ⟨rfl, ht⟩ | hwalked
    · exact .inl ⟨ht.target_eq, List.mem_cons_self⟩
    · exact .inr hwalked
  | @next n m call d ds found es fs reached r _ _ ih ih' =>
    rcases List.mem_append.mp hr with hm | hm
    · rcases ih trivial (Errand.part_first.within hw) hm with ⟨rfl, ht⟩ | ⟨body, hb, hat⟩
      · exact .inl ⟨ht.target_eq, List.mem_cons_self⟩
      · exact .inr ⟨body, List.mem_append_left _ hb, hat⟩
    · rcases ih' trivial (Errand.part_rest.within hw) hm with ⟨rfl, hmem⟩ | ⟨body, hb, hat⟩
      · exact .inl ⟨rfl, List.mem_cons_of_mem d hmem⟩
      · exact .inr ⟨body, List.mem_append_right _ hb, hat⟩

theorem RunsAll.sound {steps : List Step} {rs : List (Except Failure Bool)}
    (h : s.RunsAll holds steps m es rs) (hid : Identified met)
    (hw : ∀ step ∈ steps, step.errand.Within s holds met) (hm : s.Sound holds met m) :
    (∀ e ∈ es, e.Justified s holds met) ∧
      ∀ step, (step, .ok true) ∈ steps.zip rs → s.Reaches holds step.root := by
  induction h with
  | nil => simp
  | @cons m step steps es fs r rs hr _ ih =>
    obtain ⟨hj, ha⟩ := hr.sound hid (hw step List.mem_cons_self) step.proper hm
    obtain ⟨hj', ha'⟩ := ih (fun other ho => hw other (List.mem_cons_of_mem step ho))
      (hm.replay hid hj)
    refine ⟨fun e he => (List.mem_append.mp he).elim (hj e) (hj' e), fun other ho => ?_⟩
    rcases List.mem_cons.mp ho with heq | ho
    · cases heq
      rcases ha rfl with hfound | hreach
      · simp at hfound
      · exact reaches_root.mp hreach
    · exact ha' other ho

theorem RunsAll.placed {steps : List Step} {rs : List (Except Failure Bool)}
    (h : s.RunsAll holds steps m es rs) {target : Option Node} {about : Cursor}
    (hr : Event.reported target about ∈ es) :
    (∃ step ∈ steps, step.errand.Aims s holds target about) ∨
      ∃ body, Event.walked body ∈ es ∧ s.AtCall holds body target about := by
  induction h with
  | nil => simp at hr
  | @cons m step steps es fs r rs hrun _ ih =>
    rcases List.mem_append.mp hr with hm | hm
    · have hw : step.errand.Within s holds fun _ => True := fun _ _ _ _ => trivial
      rcases hrun.placed step.proper hw hm with haim | ⟨body, hb, hat⟩
      · exact .inl ⟨step, List.mem_cons_self, haim⟩
      · exact .inr ⟨body, List.mem_append_left _ hb, hat⟩
    · rcases ih hm with ⟨other, ho, haim⟩ | ⟨body, hb, hat⟩
      · exact .inl ⟨other, List.mem_cons_of_mem step ho, haim⟩
      · exact .inr ⟨body, List.mem_append_right _ hb, hat⟩

variable [HasLog ρ]

/-- Whatever steps are taken from an empty memo, failing ones among them: at every moment a true
verdict stands at a function that reaches a query, only such roots are answered true, and every
report stands at the root of a step or at a call that is expanded to a function which reaches a
query. -/
theorem performAll_sound (hk : s.Keeps holds) {p : ρ} (hp : holds p) (steps : List Step)
    (hid : Identified (s.Met holds steps)) :
    ∃ trace, s.RunsAll holds steps {} trace (s.performAll steps { project := p }).1 ∧
      s.Follows holds { project := p } trace (s.performAll steps { project := p }).2 ∧
      (∀ past id, past <+: trace → (Memo.replay {} past).standing id = .resolved true →
        ∃ d, s.Met holds steps d ∧ DeclarationId.of d.node = .ok id ∧ s.Reaches holds d) ∧
      (∀ step, (step, .ok true) ∈ steps.zip (s.performAll steps { project := p }).1 →
        s.Reaches holds step.root) ∧
      ∀ target about, .reported target about ∈ trace → s.Reaches holds about ∧
        ((∃ step ∈ steps, step.errand.Aims s holds target about) ∨
          ∃ body, .walked body ∈ trace ∧ s.AtCall holds body target about) := by
  obtain ⟨trace, hr, hf⟩ := tells_performAll hk steps { project := p } hp
  obtain ⟨hj, ha⟩ := hr.sound hid (fun _ => within_met) Sound.empty
  refine ⟨trace, hr, hf, ?_, ha, fun target about h => ⟨hj _ h, hr.placed h⟩⟩
  intro past id hpast hs
  rcases Memo.replay_resolved hs with hs | hmem
  · simp at hs
  · exact hj _ (hpast.subset hmem)

end LoopSearch

namespace Sample

open LoopSearch

/-- A search that fails, and then one through mutual recursion. -/
theorem overPing_sound :
    (search.performAll [.loop (cursor overTorn), .loop (cursor overPing)] { project := {} }).1 =
        [.error (.children "torn"), .ok true] ∧
      search.Reaches resolver.Consistent (cursor overPing) := by
  have hruns : (search.performAll [.loop (cursor overTorn), .loop (cursor overPing)]
      { project := {} }).1 = [.error (.children "torn"), .ok true] := by
    decide +kernel
  obtain ⟨_, _, _, _, hflagged, _⟩ := performAll_sound steady.toKeeps .empty
    [.loop (cursor overTorn), .loop (cursor overPing)] (identified (by simp [loops]))
  rw [hruns] at hflagged
  exact ⟨hruns, hflagged (.loop (cursor overPing)) (by simp)⟩

end Sample

end NPlusOne
