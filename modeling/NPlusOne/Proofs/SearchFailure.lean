import Mathlib.Data.List.Chain
import NPlusOne.Proofs.CallListing
import NPlusOne.Proofs.SearchMemo
import NPlusOne.Proofs.SearchSteps

namespace NPlusOne

namespace LoopSearch

variable {ρ : Type} {s : LoopSearch ρ} {holds : ρ → Prop} {n : Nat} {errand : Errand}
  {m m' : Memo} {es : List Event} {r : Except Failure Bool} {e : Failure} {ds : List Cursor}

/-- What a failing errand leaves behind: the functions in progress that were not so before form a
chain of calls, outermost first, and the failure comes out of the last one, or out of the errand
itself where there is none. -/
structure Leaves (s : LoopSearch ρ) (holds : ρ → Prop) (depth : Nat) (errand : Errand)
    (m m' : Memo) (e : Failure) (ds : List Cursor) : Prop where
  first : ∀ d ∈ ds.head?, errand.Calls s holds d
  chain : ds.IsChain (s.Calls holds)
  located : ∀ d ∈ ds, ∃ id, DeclarationId.of d.node = .ok id
  opened : ∀ id, m.standing id = .unvisited ∧ m'.standing id = .inProgress ↔
    ∃ d ∈ ds, DeclarationId.of d.node = .ok id
  outside : ds = [] → errand.Fails s holds e
  inside : ∀ d ∈ ds.getLast?, s.Fails holds d e ∨ e = .tooDeep ∧ ds.length = depth + 1

theorem Leaves.part {a b : Errand} (h : s.Leaves holds n a m m' e ds)
    (hp : Errand.Part s holds a b) : s.Leaves holds n b m m' e ds where
  first d hd := hp.calls d (h.first d hd)
  chain := h.chain
  located := h.located
  opened := h.opened
  outside hd := hp.fails e (h.outside hd)
  inside := h.inside

theorem Leaves.nothing (hf : errand.Fails s holds e)
    (hm : ∀ id, m'.standing id = .inProgress → m.standing id = .inProgress) :
    s.Leaves holds n errand m m' e [] where
  first := by simp
  chain := .nil
  located := by simp
  opened id := by
    simp only [List.not_mem_nil, false_and, exists_false, iff_false, not_and]
    intro hu hp
    simp [hm id hp] at hu
  outside _ := hf
  inside := by simp

/-- A part that ended well before the failure leaves nothing in progress. -/
theorem Leaves.after {a : Errand} {b : Bool} {fs : List Event}
    (h : s.Leaves holds n errand (m.replay es) ((m.replay es).replay fs) e ds)
    (hr : s.Runs holds n a m es (.ok b))
    (hr' : s.Runs holds n errand (m.replay es) fs (.error e)) :
    s.Leaves holds n errand m (m.replay (es ++ fs)) e ds where
  first := h.first
  chain := h.chain
  located := h.located
  opened id := by
    rw [← h.opened id, Memo.replay_append]
    constructor
    · rintro ⟨hu, hp⟩
      refine ⟨?_, hp⟩
      -- What the part before has visited is resolved by now and stays so.
      cases hs : (m.replay es).standing id with
      | unvisited => rfl
      | inProgress => simp [hr.inProgress_before rfl hs] at hu
      | resolved v =>
        have hsame := hr'.frame (by simp [hs]) (by simp : errand.owner = some id → _)
        simp [hsame, hs] at hp
    · rintro ⟨hu, hp⟩
      exact ⟨Memo.unvisited_of_replay hu, hp⟩
  outside := h.outside
  inside := h.inside

/-- A function whose body is walked into a failure comes to the front of the chain. -/
theorem Leaves.function {d : Cursor} {call : Option Node} {id : DeclarationId} {body : Node}
    {b : Bool}
    (h : s.Leaves holds n (.walk (functionRoot d call id) body [d.node] b) (m.begin id).2 m' e ds)
    (hid : DeclarationId.of d.node = .ok id) (hu : m.standing id = .unvisited)
    (hp : m'.standing id = .inProgress) :
    s.Leaves holds (n + 1) (.check d call) m m' e (d :: ds) where
  first c hc := by
    cases hc
    rfl
  chain := h.chain.cons fun c hc => (Errand.calls_function hid).mp (h.first c hc)
  located c hc := by
    rcases List.mem_cons.mp hc with rfl | hc
    · exact ⟨id, hid⟩
    · exact h.located c hc
  opened other := by
    by_cases heq : id = other
    · subst heq
      simp [hu, hp, hid]
    · have hne : DeclarationId.of d.node ≠ .ok other := by simp [hid, heq]
      have ho := h.opened other
      rw [Memo.standing_begin_of_ne heq] at ho
      simp [ho, hne]
  outside hd := by cases hd
  inside c hc := by
    cases ds with
    | nil =>
      cases hc
      exact .inl ((Errand.fails_function hid).mp (h.outside rfl))
    | cons d' ds' =>
      rcases h.inside c (by simpa using hc) with hf | ⟨he, hl⟩
      · exact .inl hf
      · exact .inr ⟨he, by simp [hl]⟩

theorem Leaves.tooDeep {d : Cursor} {call : Option Node} {id : DeclarationId}
    (hid : DeclarationId.of d.node = .ok id) (hu : m.standing id = .unvisited) :
    s.Leaves holds 0 (.check d call) m (m.begin id).2 .tooDeep [d] where
  first c hc := by
    cases hc
    rfl
  chain := .singleton d
  located c hc := by
    cases List.mem_singleton.mp hc
    exact ⟨id, hid⟩
  opened other := by
    by_cases heq : id = other
    · subst heq
      simp [Memo.standing_begin hu, hu, hid]
    · have hsame : (m.begin id).2.standing other = m.standing other := Memo.standing_begin_of_ne heq
      simp only [hsame, List.mem_singleton, exists_eq_left, hid, Except.ok.injEq, heq, iff_false]
      rintro ⟨hv, hp⟩
      simp [hv] at hp
  outside hd := by cases hd
  inside c hc := .inr ⟨rfl, rfl⟩

/-- Every failing errand leaves such a chain of calls behind. -/
theorem Runs.leaves (h : s.Runs holds n errand m es r) (hr : r = .error e) :
    ∃ ds, s.Leaves holds n errand m (m.replay es) e ds := by
  induction h with
  | nowhere | known | recalled | checked | emptied | settled | skipped | unnamed | unknown | done =>
    cases hr
  | loop hf _ ih =>
    obtain ⟨ds, hl⟩ := ih hr
    exact ⟨ds, hl.part (Errand.part_loop hf)⟩
  | unlocated hid =>
    cases hr
    exact ⟨[], .nothing hid fun _ hp => hp⟩
  | tooDeep hid hu =>
    cases hr
    exact ⟨_, .tooDeep hid hu⟩
  | @broken n m d call id es e' hid hu hw ih =>
    cases hr
    obtain ⟨ds, hl⟩ := ih rfl
    have hp : ((m.begin id).2.replay es).standing id = .inProgress := by
      rw [hw.frame (by simp [Memo.standing_begin hu]) (by simp), Memo.standing_begin hu, if_pos rfl]
    exact ⟨d :: ds, hl.function hid hu hp⟩
  | noted _ _ _ ih =>
    obtain ⟨ds, hl⟩ := ih hr
    exact ⟨ds, hl.part Errand.part_tail⟩
  | halted _ _ ih =>
    obtain ⟨ds, hl⟩ := ih hr
    exact ⟨ds, hl.part Errand.part_head⟩
  | @closed n m root body x rest found es reached e' _ hv hc =>
    cases hr
    have hfails : (Errand.walk root body (x :: rest) found).Fails s holds e :=
      ⟨x, List.mem_cons_self, x, .self x, .inl hc⟩
    exact ⟨[], .nothing hfails fun _ => hv.inProgress_before rfl⟩
  | passed _ hv hc hw _ ih =>
    cases hr
    obtain ⟨ds, hl⟩ := ih rfl
    exact ⟨ds, (hl.after hv hw).part (Errand.part_children hc)⟩
  | misread hc hs =>
    cases hr
    exact ⟨[], .nothing ⟨hc, .misread hs⟩ fun _ hp => hp⟩
  | here hc hs hd _ ih =>
    obtain ⟨ds, hl⟩ := ih hr
    exact ⟨ds, hl.part (Errand.part_here hc hs hd)⟩
  | lost hc hs hd hsay =>
    cases hr
    exact ⟨[], .nothing ⟨hc, .lost hs hd hsay⟩ fun _ hp => hp⟩
  | elsewhere hc hs hd hsay _ ih =>
    obtain ⟨ds, hl⟩ := ih hr
    exact ⟨ds, hl.part (Errand.part_elsewhere hc hs hd hsay)⟩
  | failed _ ih =>
    obtain ⟨ds, hl⟩ := ih hr
    exact ⟨ds, hl.part Errand.part_first⟩
  | next hv hw _ ih =>
    cases hr
    obtain ⟨ds, hl⟩ := ih rfl
    exact ⟨ds, (hl.after hv hw).part Errand.part_rest⟩

theorem checkFunction_inProgress [HasLog ρ] {d : Cursor} {id : DeclarationId} {st : WalkState ρ}
    (hid : DeclarationId.of d.node = .ok id) (hp : st.memo.standing id = .inProgress)
    (call : Option Node) : (s.checkFunction d call).run st = (.ok false, st) := by
  have hv : st.memo.standing id ≠ .unvisited := by simp [hp]
  have hf : st.memo.verdictOf id = false := by simp [Memo.verdictOf_eq, hp]
  unfold checkFunction
  cases s.bound with
  | zero =>
    rw [checkFunctionDepth, enter_known hid hv, hf]
    rfl
  | succ depth =>
    rw [checkFunctionDepth, enter_known hid hv, hf]
    rfl

/-- A step that fails leaves a chain of functions in progress, namely those in whose bodies it was
when it failed; only where the failure comes out of no function is there none. Later each of them
is taken for one that reaches no query, without a look at its body. -/
theorem perform_failure_leaves [HasLog ρ] (hk : s.Keeps holds) {st : WalkState ρ}
    (hp : holds st.project) (step : Step) (h : ((s.perform step).run st).1 = .error e) :
    ∃ ds, s.Leaves holds s.bound step.errand st.memo ((s.perform step).run st).2.memo e ds ∧
      ((∀ id, st.memo.standing id = .unvisited →
        ((s.perform step).run st).2.memo.standing id ≠ .inProgress) ↔ ds = []) ∧
      ∀ d ∈ ds, ∀ call, (s.checkFunction d call).run ((s.perform step).run st).2 =
        (.ok false, ((s.perform step).run st).2) := by
  obtain ⟨es, hr, hf⟩ := tells_perform hk step st hp
  obtain ⟨ds, hl⟩ := hr.leaves h
  rw [← hf.memo] at hl
  refine ⟨ds, hl, ⟨?_, ?_⟩, ?_⟩
  · intro hclean
    apply List.eq_nil_iff_forall_not_mem.mpr
    intro d hd
    obtain ⟨id, hid⟩ := hl.located d hd
    obtain ⟨hu, hopen⟩ := (hl.opened id).mpr ⟨d, hd, hid⟩
    exact hclean id hu hopen
  · rintro rfl id hu hopen
    simpa using (hl.opened id).mp ⟨hu, hopen⟩
  · intro d hd call
    obtain ⟨id, hid⟩ := hl.located d hd
    exact checkFunction_inProgress hid ((hl.opened id).mpr ⟨d, hd, hid⟩).2 call

end LoopSearch

namespace Sample

open LoopSearch

/-- The failure in the body of `torn` leaves it in progress. -/
theorem torn_left_open :
    ((search.perform (.loop (cursor overTorn))).run { project := {} }).1 =
        .error (.children "torn") ∧
      ∃ ds, search.Leaves resolver.Consistent search.bound (.loop (cursor overTorn)) {}
          ((search.perform (.loop (cursor overTorn))).run { project := {} }).2.memo
          (.children "torn") ds ∧ ds ≠ [] := by
  have hrun : ((search.perform (.loop (cursor overTorn))).run { project := {} }).1 =
      .error (.children "torn") := by
    decide +kernel
  have hopen : ((search.perform (.loop (cursor overTorn))).run { project := {} }).2.memo.standing
      ⟨"a.cpp", 50⟩ = .inProgress := by
    decide +kernel
  obtain ⟨ds, hleaves, hclean, _⟩ :=
    perform_failure_leaves steady.toKeeps .empty (.loop (cursor overTorn)) hrun
  refine ⟨hrun, ds, hleaves, fun hnil => ?_⟩
  exact hclean.mpr hnil ⟨"a.cpp", 50⟩ rfl hopen

end Sample

end NPlusOne
