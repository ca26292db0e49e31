import NPlusOne.Proofs.SearchSound

namespace NPlusOne

namespace LoopSearch

variable {ρ : Type} {s : LoopSearch ρ} {holds : ρ → Prop} {met : Cursor → Prop} {n : Nat}
  {errand : Errand} {m : Memo} {es : List Event} {r : Except Failure Bool}

/-- The memo knows the function, and not as one that reaches a query. -/
def Silent (m : Memo) (d : Cursor) : Prop :=
  ∃ id, DeclarationId.of d.node = .ok id ∧ m.standing id ≠ .unvisited ∧ m.verdictOf id = false

theorem Silent.replay {d : Cursor} (h : Silent m d) (hr : ∀ id, Event.recorded id true ∉ es) :
    Silent (m.replay es) d := by
  obtain ⟨id, hid, hv, hf⟩ := h
  refine ⟨id, hid, Memo.replay_visited hv es, ?_⟩
  cases ht : (m.replay es).verdictOf id with
  | false => rfl
  | true =>
    rcases Memo.replay_resolved (Memo.verdictOf_eq_true_iff.mp ht) with hs | hm
    · exact absurd (Memo.verdictOf_eq_true_iff.mpr hs) (by simp [hf])
    · exact absurd hm (hr id)

/-- A body without query uses all of whose calls lead to silent functions. -/
def Quiet (s : LoopSearch ρ) (holds : ρ → Prop) (m : Memo) (c : Cursor) : Prop :=
  ¬ s.Uses c ∧ ∀ d, s.Calls holds c d → Silent m d

theorem Quiet.replay {c : Cursor} (h : s.Quiet holds m c) (hr : ∀ id, Event.recorded id true ∉ es) :
    s.Quiet holds (m.replay es) c :=
  ⟨h.1, fun d hd => (h.2 d hd).replay hr⟩

theorem Runs.not_recorded (h : s.Runs holds n errand m es r) (hq : es.any Event.isReport = false)
    (id : DeclarationId) : Event.recorded id true ∉ es := by
  intro hm
  simp [h.reported_of_recorded hm] at hq

/-- An errand that ends well without a report met no use, called silent functions only, and left
every function that it began quiet. -/
theorem Runs.quiet [HasLog ρ] (hs : s.Steady holds) (h : s.Runs holds n errand m es r) {b : Bool}
    (hr : r = .ok b) (hp : errand.Located) (hq : es.any Event.isReport = false) :
    ¬ errand.Uses s ∧ (∀ d, errand.Calls s holds d → Silent (m.replay es) d) ∧
      ∀ d id, Event.began d id ∈ es → s.Quiet holds (m.replay es) d := by
  induction h generalizing b with
  | nowhere hf => simp [Errand.Located, hf] at hp
  | unlocated | tooDeep | broken | halted | closed | misread | lost | failed => cases hr
  | recalled | settled | noted => simp [Event.isReport] at hq
  | emptied | done => simp [Errand.Uses, Errand.Calls]
  | @loop n m c file es r hf _ ih =>
    obtain ⟨hu, hc, hb⟩ := ih hr trivial (by simpa [Event.isReport] using hq)
    refine ⟨fun h => hu (by simpa [Errand.Uses] using h), fun d hd => ?_, by simpa using hb⟩
    exact hc d ((Errand.calls_loop hf).mpr hd)
  | known hid hv hverdict =>
    refine ⟨fun h => h, ?_, by simp⟩
    rintro _ rfl
    exact ⟨_, hid, hv, hverdict⟩
  | @checked n m d call id es v hid hv hw ih =>
    have hq' : es.any Event.isReport = false := by simpa [Event.isReport] using hq
    -- Without a report the walk of the body answers no, and that is the verdict.
    have hfalse : v = false := by simpa [Errand.found, hq'] using hw.answer_eq rfl
    subst hfalse
    obtain ⟨hu, hc, hb⟩ := ih rfl trivial hq'
    have hlast : ∀ other, Event.recorded other true ∉ [Event.recorded id false] := by simp
    have hquiet : s.Quiet holds ((m.begin id).2.replay es) d :=
      ⟨fun h => hu (by simpa [Errand.Uses] using h),
        fun e he => hc e ((Errand.calls_function hid).mpr he)⟩
    rw [Memo.replay_began, Memo.replay_walked, Memo.replay_append]
    refine ⟨fun h => h, ?_, ?_⟩
    · rintro _ rfl
      exact ⟨id, hid, by simp [Memo.standing_record],
        by simp [Memo.verdictOf_eq, Memo.standing_record]⟩
    · intro e other he
      simp only [List.mem_cons, Event.began.injEq, reduceCtorEq, false_or, List.mem_append,
        List.not_mem_nil, or_false] at he
      rcases he with ⟨rfl, rfl⟩ | he
      · exact hquiet.replay hlast
      · exact (hb e other he).replay hlast
  | @passed n m root body x xs rest found es fs reached r hu hv hc hw ih ih' =>
    rw [List.any_append, Bool.or_eq_false_iff] at hq
    obtain ⟨_, hcalls, hb⟩ := ih rfl trivial hq.1
    obtain ⟨huses', hcalls', hb'⟩ := ih' hr trivial hq.2
    -- What follows reports nothing, so it does not turn a silent function into one that reaches.
    have hlater := hw.not_recorded hq.2
    rw [Memo.replay_append]
    refine ⟨fun h => huses' (h.cons hc hu), fun d hd => ?_, fun d id hd => ?_⟩
    · rcases hd.cons hc with hd | hd
      · exact (hcalls d hd).replay hlater
      · exact hcalls' d hd
    · rcases List.mem_append.mp hd with hd | hd
      · exact (hb d id hd).replay hlater
      · exact hb' d id hd
  | skipped hc => exact ⟨fun h => h, fun d hd => absurd hd.1 hc, by simp⟩
  | unnamed hc hn => exact ⟨fun h => h, fun d hd => (hd.unnamed hn).elim, by simp⟩
  | here hc hn hd _ ih =>
    obtain ⟨_, hcalls, hb⟩ := ih hr trivial hq
    exact ⟨fun h => h, fun e he => hcalls e (he.here hn hd), hb⟩
  | unknown hc hn hd hsay =>
    refine ⟨fun h => h, fun e he => ?_, by simp⟩
    obtain ⟨ds, hsay', _⟩ := he.elsewhere hn hd
    cases hs.agree hsay hsay'
  | elsewhere hc hn hd hsay _ ih =>
    obtain ⟨_, hcalls, hb⟩ := ih hr trivial hq
    refine ⟨fun h => h, fun e he => ?_, hb⟩
    obtain ⟨ds, hsay', hmem⟩ := he.elsewhere hn hd
    cases hs.agree hsay hsay'
    exact hcalls e hmem
  | @next n m call d ds found es fs reached r _ hw ih ih' =>
    rw [List.any_append, Bool.or_eq_false_iff] at hq
    obtain ⟨_, hcalls, hb⟩ := ih rfl trivial hq.1
    obtain ⟨_, hcalls', hb'⟩ := ih' hr trivial hq.2
    have hlater := hw.not_recorded hq.2
    rw [Memo.replay_append]
    refine ⟨fun h => h, fun e he => ?_, fun e id he => ?_⟩
    · rcases List.mem_cons.mp he with rfl | he
      · exact (hcalls e rfl).replay hlater
      · exact hcalls' e he
    · rcases List.mem_append.mp he with he | he
      · exact (hb e id he).replay hlater
      · exact hb' e id he

/-- The memo before a search: nothing is in progress, and every verdict is that of the expansion
graph. -/
structure Exact (s : LoopSearch ρ) (holds : ρ → Prop) (met : Cursor → Prop) (m : Memo) : Prop where
  idle : ∀ id, m.standing id ≠ .inProgress
  verdict : ∀ d id v, met d → DeclarationId.of d.node = .ok id → m.standing id = .resolved v →
    (v = true ↔ s.Reaches holds d)

theorem Exact.empty : s.Exact holds met {} :=
  ⟨by simp, by simp⟩

theorem Exact.sound (h : s.Exact holds met m) : s.Sound holds met m :=
  fun d id hd hdid hv => (h.verdict d id true hd hdid hv).mp rfl

/-- A silent function was begun in this search, or was known not to reach a query before. -/
theorem Runs.silent_cases (h : s.Runs holds n errand m es r) (hid : Identified met)
    (hw : errand.Within s holds met) (hm : s.Exact holds met m) (ho : errand.owner = none)
    {d : Cursor} (hd : met d) (hsilent : Silent (m.replay es) d) :
    (∃ id, Event.began d id ∈ es) ∨ ¬ s.Reaches holds d := by
  obtain ⟨id, hdid, hv, hf⟩ := hsilent
  cases hs : m.standing id with
  | unvisited =>
    obtain ⟨e, he⟩ := h.began_of_visited hv hs (by simp [ho])
    cases hid e d id (h.began_met hw he) hd (h.began_fresh he).1 hdid
    exact .inl ⟨id, he⟩
  | inProgress => exact absurd hs (hm.idle id)
  | resolved v =>
    have hsame := h.frame (by simp [hs]) (by simp [ho] : errand.owner = some id → r ≠ .ok true)
    rw [Memo.verdictOf_eq, hsame, hs] at hf
    cases hf
    exact .inr fun hr => absurd ((hm.verdict d id false hd hdid hs).mpr hr) (by simp)

/-- An errand that finds nothing has nothing to find. -/
theorem Runs.not_reaches [HasLog ρ] (hs : s.Steady holds)
    (h : s.Runs holds n errand m es (.ok false)) (hid : Identified met)
    (hw : errand.Within s holds met) (hm : s.Exact holds met m) (ho : errand.owner = none)
    (hp : errand.Located) : ¬ errand.Reaches s holds := by
  have hq : es.any Event.isReport = false :=
    (Bool.or_eq_false_iff.mp (h.answer_eq rfl).symm).2
  obtain ⟨huses, hcalls, hbegan⟩ := h.quiet hs rfl hp hq
  -- The set of the argument holds the functions begun in this search, wrong verdicts included.
  have hclosed : ∀ c, (∀ e, s.Leads holds c e → met e) ∧ (∃ id, Event.began c id ∈ es) →
      ¬ s.Uses c ∧ ∀ d, s.Calls holds c d →
        (∀ e, s.Leads holds d e → met e) ∧ (∃ id, Event.began d id ∈ es) ∨ ¬ s.Reaches holds d := by
    rintro c ⟨hl, id, hb⟩
    refine ⟨(hbegan c id hb).1, fun d hd => ?_⟩
    have hl' : ∀ e, s.Leads holds d e → met e := fun e he => hl e (.head hd he)
    rcases h.silent_cases hid hw hm ho (hl' d .refl) ((hbegan c id hb).2 d hd) with hb' | hno
    · exact .inl ⟨hl', hb'⟩
    · exact .inr hno
  rintro (hu | ⟨d, hd, hr⟩)
  · exact huses hu
  · have hl : ∀ e, s.Leads holds d e → met e := fun e he => hw d e hd he
    rcases h.silent_cases hid hw hm ho (hl d .refl) (hcalls d hd) with hb | hno
    · exact s.not_reaches_of_closed holds hclosed ⟨hl, hb⟩ hr
    · exact hno hr

/-- A single search over any call graph, recursion included: a root that is answered at all is
answered true exactly when it lies in a file and reaches a query. -/
theorem perform_answers_iff [HasLog ρ] (hs : s.Steady holds) {st : WalkState ρ}
    (hp : holds st.project) (step : Step) (hid : Identified (s.Met holds [step]))
    (hm : s.Exact holds (s.Met holds [step]) st.memo) {b : Bool}
    (h : ((s.perform step).run st).1 = .ok b) :
    b = true ↔ step.root.node.file?.isSome = true ∧ s.Reaches holds step.root := by
  obtain ⟨es, hr, _⟩ := tells_perform hs.toKeeps step st hp
  rw [h] at hr
  have hw : step.errand.Within s holds (s.Met holds [step]) := within_met List.mem_cons_self
  cases b with
  | true =>
    rcases (hr.sound hid hw step.proper hm.sound).2 rfl with hfound | hreach
    · simp at hfound
    · simpa using ⟨hr.located, reaches_root.mp hreach⟩
  | false =>
    suffices step.root.node.file?.isSome = true → ¬ s.Reaches holds step.root by simpa using this
    intro hfile hreach
    exact hr.not_reaches hs hid hw hm step.owner_errand (Step.located_errand hfile)
      (reaches_root.mpr hreach)

end LoopSearch

namespace Sample

open LoopSearch

/-- The loop is found although `pong`, met while `ping` is in progress, is taken for harmless. -/
theorem overPing_found :
    ((search.perform (.loop (cursor overPing))).run { project := {} }).1 = .ok true ∧
      ((search.perform (.loop (cursor overPing))).run { project := {} }).2.memo.standing
        ⟨"a.cpp", 30⟩ = .resolved false ∧
      search.Reaches resolver.Consistent (cursor overPing) := by
  have hrun : ((search.perform (.loop (cursor overPing))).run { project := {} }).1 = .ok true := by
    decide +kernel
  have hpong : ((search.perform (.loop (cursor overPing))).run { project := {} }).2.memo.standing
      ⟨"a.cpp", 30⟩ = .resolved false := by
    decide +kernel
  have hiff := perform_answers_iff steady .empty (.loop (cursor overPing))
    (identified (by simp [loops])) .empty hrun
  exact ⟨hrun, hpong, (hiff.mp rfl).2⟩

/-- A loop in no file is answered false although it uses a query itself. -/
theorem adrift_missed :
    search.Steady resolver.Consistent ∧
      Identified (search.Met resolver.Consistent [.loop (cursor adrift)]) ∧
      search.Exact resolver.Consistent (search.Met resolver.Consistent [.loop (cursor adrift)]) {} ∧
      ((search.perform (.loop (cursor adrift))).run { project := {} }).1 = .ok false ∧
      search.Reaches resolver.Consistent (cursor adrift) :=
  ⟨steady, identified (by simp [loops]), .empty, by decide +kernel,
    .use (uses_iff_any_listed.mpr rfl)⟩

end Sample

end NPlusOne
