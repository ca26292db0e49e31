import NPlusOne.Proofs.QueryReach
import NPlusOne.Proofs.SearchRun
import NPlusOne.Proofs.SearchParts

namespace NPlusOne

/-- What a search can be asked. -/
inductive Step where
  | loop (loop : Cursor)
  | function (definition : Cursor) (call : Option Node)

namespace Step

def errand : Step → Errand
  | loop c => .loop c
  | function d call => .check d call

/-- The loop or function that the question is about. -/
def root : Step → Cursor
  | loop c => c
  | function d _ => d

@[simp] theorem owner_errand (step : Step) : step.errand.owner = none := by
  cases step <;> rfl

@[simp] theorem found_errand (step : Step) : step.errand.found = false := by
  cases step <;> rfl

theorem located_errand {step : Step} (h : step.root.node.file?.isSome = true) :
    step.errand.Located := by
  cases step with
  | loop c => exact h
  | function d call => trivial

end Step

namespace LoopSearch

variable {ρ : Type} {s : LoopSearch ρ} {holds : ρ → Prop}

/-- The functions that can come up when the steps are taken. -/
def Met (s : LoopSearch ρ) (holds : ρ → Prop) (steps : List Step) (d : Cursor) : Prop :=
  ∃ step ∈ steps, ∃ c, step.errand.Calls s holds c ∧ s.Leads holds c d

theorem within_met {steps : List Step} {step : Step} (h : step ∈ steps) :
    step.errand.Within s holds (s.Met holds steps) :=
  fun d _ hd he => ⟨step, h, d, hd, he⟩

theorem Met.mono {steps other : List Step} (h : ∀ step ∈ other, step ∈ steps) {d : Cursor}
    (hd : s.Met holds other d) : s.Met holds steps d := by
  obtain ⟨step, hstep, hd⟩ := hd
  exact ⟨step, h step hstep, hd⟩

theorem reaches_root {step : Step} :
    step.errand.Reaches s holds ↔ s.Reaches holds step.root := by
  cases step with
  | loop c => exact s.reaches_iff holds |>.symm
  | function d call => exact Errand.reaches_check

/-- The events and the outcomes of steps that are taken one after the other. -/
inductive RunsAll (s : LoopSearch ρ) (holds : ρ → Prop) :
    List Step → Memo → List Event → List (Except Failure Bool) → Prop
  | nil {m} : RunsAll s holds [] m [] []
  | cons {m step steps es fs r rs} : s.Runs holds s.bound step.errand m es r →
    RunsAll s holds steps (m.replay es) fs rs →
    RunsAll s holds (step :: steps) m (es ++ fs) (r :: rs)

theorem Runs.located {step : Step} {n : Nat} {m : Memo} {es : List Event}
    (h : s.Runs holds n step.errand m es (.ok true)) : step.root.node.file?.isSome = true := by
  cases step with
  | loop c =>
    cases h with
    | loop hf => simp [Step.root, hf]
  | function d call =>
    cases h with
    | recalled hid | checked hid => simp [Step.root, DeclarationId.file_of hid]

namespace RunsAll

variable {steps : List Step} {m : Memo} {es : List Event} {rs : List (Except Failure Bool)}

/-- Every step has an outcome. -/
theorem answered (h : s.RunsAll holds steps m es rs) {step : Step} (hs : step ∈ steps) :
    ∃ r, (step, r) ∈ steps.zip rs := by
  induction h with
  | nil => cases hs
  | @cons m first steps es fs r rs _ _ ih =>
    rcases List.mem_cons.mp hs with rfl | hs
    · exact ⟨r, List.mem_cons_self⟩
    · obtain ⟨other, ho⟩ := ih hs
      exact ⟨other, List.mem_cons_of_mem _ ho⟩

theorem runs (h : s.RunsAll holds steps m es rs) {step : Step} {r : Except Failure Bool}
    (hr : (step, r) ∈ steps.zip rs) : ∃ m' es', s.Runs holds s.bound step.errand m' es' r := by
  induction h with
  | nil => cases hr
  | cons hrun _ ih =>
    rcases List.mem_cons.mp hr with heq | hr
    · cases heq
      exact ⟨_, _, hrun⟩
    · exact ih hr

end RunsAll

variable [HasLog ρ]

def perform (s : LoopSearch ρ) : Step → Task (WalkState ρ) Bool
  | .loop c => s.checkLoop c
  | .function d call => s.checkFunction d call

/-- Takes the steps in turn; a step that fails leaves what it did and the next one follows. -/
def performAll (s : LoopSearch ρ) :
    List Step → WalkState ρ → List (Except Failure Bool) × WalkState ρ
  | [], st => ([], st)
  | step :: steps, st =>
    let (r, st) := (s.perform step).run st
    let (rs, st) := s.performAll steps st
    (r :: rs, st)

theorem recounts_perform {tale : ρ → List (Option Node) → ρ → Prop} (ht : s.Tracks holds tale)
    (step : Step) : s.Recounts holds tale s.bound step.errand (s.perform step) := by
  cases step with
  | loop c => exact recounts_checkLoop ht c
  | function d call => exact recounts_checkFunctionDepth ht s.bound d call

theorem tells_perform (hk : s.Keeps holds) (step : Step) :
    s.Tells holds s.bound step.errand (s.perform step) :=
  (recounts_perform hk.tracks step).tells

theorem tells_performAll (hk : s.Keeps holds) (steps : List Step) (st : WalkState ρ)
    (hp : holds st.project) :
    ∃ es, s.RunsAll holds steps st.memo es (s.performAll steps st).1 ∧
      s.Follows holds st es (s.performAll steps st).2 := by
  induction steps generalizing st with
  | nil => exact ⟨[], .nil, Follows.refl st⟩
  | cons step steps ih =>
    obtain ⟨es, hr, hf⟩ := tells_perform hk step st hp
    obtain ⟨fs, hrs, hf'⟩ := ih _ (hf.project hp)
    rw [hf.memo] at hrs
    exact ⟨es ++ fs, .cons hr hrs, hf.trans hf'⟩

end LoopSearch

end NPlusOne
