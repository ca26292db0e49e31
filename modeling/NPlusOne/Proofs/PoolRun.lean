import Mathlib.Algebra.BigOperators.Group.List.Basic
import Mathlib.Data.List.Forall2
import Mathlib.Logic.Relation
import Mathlib.Tactic.Abel
import NPlusOne.Proofs.TaskShared
import NPlusOne.WorkerPool

namespace NPlusOne

theorem forall₂_left {α β : Type} {R : α → β → Prop} {xs : List α} {ys : List β}
    (h : List.Forall₂ R xs ys) : ∀ x ∈ xs, ∃ y, R x y := by
  induction h with
  | nil => simp
  | cons hxy _ ih =>
    intro x hx
    rcases List.mem_cons.mp hx with rfl | hx
    · exact ⟨_, hxy⟩
    · exact ih x hx

theorem forall₂_middle {α β : Type} {R : α → β → Prop} {xs : List α} {before after : List β} {y : β}
    (h : List.Forall₂ R xs (before ++ y :: after)) :
    ∃ first x last, xs = first ++ x :: last ∧ List.Forall₂ R first before ∧ R x y ∧
      List.Forall₂ R last after := by
  induction before generalizing xs with
  | nil =>
    cases h with
    | cons hy hafter => exact ⟨[], _, _, rfl, .nil, hy, hafter⟩
  | cons z before ih =>
    cases h with
    | cons hz hrest =>
      obtain ⟨first, x, last, rfl, hbefore, hy, hafter⟩ := ih hrest
      exact ⟨_ :: first, x, last, rfl, .cons hz hbefore, hy, hafter⟩

namespace WorkerPool

variable {σ β : Type} {jobs jobs' : List (Task σ β)} {s s' : σ}

/-- One job does a step. The others stay as they are. -/
inductive Moves : List (Task σ β) × σ → List (Task σ β) × σ → Prop
  | step {before change next after s} :
    Moves (before ++ .step change next :: after, s) (before ++ next s :: after, change s)
  | lock {before next after s} :
    Moves (before ++ .lock next :: after, s) (before ++ next :: after, s)
  | unlock {before next after s} :
    Moves (before ++ .unlock next :: after, s) (before ++ next :: after, s)

/-- The second jobs and state come from the first ones by steps of the jobs, in some order. -/
abbrev Reaches : List (Task σ β) × σ → List (Task σ β) × σ → Prop :=
  Relation.ReflTransGen Moves

/-- What each job owes for itself, and what holds of all jobs together with the state, is kept by
every order of their steps. -/
theorem Reaches.keeps {γ : Type} (owes : γ → Task σ β → Prop) (inv : List γ → σ → Prop)
    (hstep : ∀ before g after s change next, owes g (.step change next) →
      inv (before ++ g :: after) s →
      ∃ g', owes g' (next s) ∧ inv (before ++ g' :: after) (change s))
    (hlock : ∀ g next, owes g (.lock next) → owes g next)
    (hunlock : ∀ g next, owes g (.unlock next) → owes g next)
    (h : Reaches (jobs, s) (jobs', s')) {gs : List γ} (hg : List.Forall₂ owes gs jobs)
    (hinv : inv gs s) : ∃ gs', List.Forall₂ owes gs' jobs' ∧ inv gs' s' := by
  have hmiddle {first last : List γ} {g : γ} {before after : List (Task σ β)} {job : Task σ β}
      (hfirst : List.Forall₂ owes first before) (hjob : owes g job)
      (hlast : List.Forall₂ owes last after) :
      List.Forall₂ owes (first ++ g :: last) (before ++ job :: after) :=
    List.rel_append hfirst (.cons hjob hlast)
  generalize hfrom : (jobs, s) = start at h
  induction h using Relation.ReflTransGen.head_induction_on generalizing jobs s gs with
  | refl =>
    cases hfrom
    exact ⟨gs, hg, hinv⟩
  | head hmove _ ih =>
    cases hmove with
    | step =>
      cases hfrom
      obtain ⟨first, g, last, rfl, hfirst, hjob, hlast⟩ := forall₂_middle hg
      obtain ⟨g', hnext, hinv'⟩ := hstep _ _ _ _ _ _ hjob hinv
      exact ih (hmiddle hfirst hnext hlast) hinv' rfl
    | lock =>
      cases hfrom
      obtain ⟨first, g, last, rfl, hfirst, hjob, hlast⟩ := forall₂_middle hg
      exact ih (hmiddle hfirst (hlock _ _ hjob) hlast) hinv rfl
    | unlock =>
      cases hfrom
      obtain ⟨first, g, last, rfl, hfirst, hjob, hlast⟩ := forall₂_middle hg
      exact ih (hmiddle hfirst (hunlock _ _ hjob) hlast) hinv rfl

/-- A job that is run to its end. -/
theorem reaches_run (before after : List (Task σ β)) (job : Task σ β) (s : σ) :
    Reaches (before ++ job :: after, s)
      (before ++ .done (job.run s).1 :: after, (job.run s).2) := by
  induction job generalizing s with
  | done r => exact .refl
  | step change next ih => exact .head .step (ih s (change s))
  | lock next ih => exact .head .lock (ih s)
  | unlock next ih => exact .head .unlock (ih s)

theorem reaches_set {job : Nat} {task next : Task σ β} (hjob : jobs[job]? = some task)
    (h : ∀ before after, Reaches (before ++ task :: after, s) (before ++ next :: after, s')) :
    Reaches (jobs, s) (jobs.set job next, s') := by
  obtain ⟨hlt, rfl⟩ := List.getElem?_eq_some_iff.mp hjob
  have hjobs : jobs = jobs.take job ++ jobs[job] :: jobs.drop (job + 1) := by
    rw [← List.drop_eq_getElem_cons hlt, List.take_append_drop]
  have hset : jobs.set job next = jobs.take job ++ next :: jobs.drop (job + 1) :=
    List.set_eq_take_append_cons_drop.trans (if_pos hlt)
  rw [hset]
  nth_rewrite 1 [hjobs]
  exact h _ _

theorem reaches_step {job : Nat} {p p' : WorkerPool σ β} (h : p.step job = some p') :
    Reaches (p.jobs, p.state) (p'.jobs, p'.state) := by
  unfold step at h
  split at h
  next change next hjob =>
    cases h
    exact reaches_set hjob fun _ _ => .single .step
  next next hjob =>
    split at h
    next =>
      cases h
      exact reaches_set hjob fun _ _ => .single .lock
    next => cases h
  next next hjob =>
    cases h
    exact reaches_set hjob fun _ _ => .single .unlock
  next => cases h

theorem reaches_steps (job n : Nat) (p : WorkerPool σ β) :
    Reaches (p.jobs, p.state) ((p.steps job n).jobs, (p.steps job n).state) := by
  induction n generalizing p with
  | zero => exact .refl
  | succ n ih =>
    unfold steps
    cases h : p.step job with
    | none => exact .refl
    | some p' => exact (reaches_step h).trans (ih p')

theorem reaches_turn (room : Nat → Bool) (p : WorkerPool σ β) (turn : Turn) :
    Reaches (p.jobs, p.state) ((p.turn room turn).jobs, (p.turn room turn).state) := by
  cases turn with
  | collect => exact .refl
  | work job n =>
    have hbegin : (p.begin room job).jobs = p.jobs ∧ (p.begin room job).state = p.state := by
      unfold begin
      split <;> exact ⟨rfl, rfl⟩
    unfold WorkerPool.turn
    rw [← hbegin.1, ← hbegin.2]
    dsimp only
    split
    next => exact reaches_steps job n _
    next => exact .refl

theorem reaches_turns (room : Nat → Bool) (turns : List Turn) (p : WorkerPool σ β) :
    Reaches (p.jobs, p.state)
      ((turns.foldl (turn room) p).jobs, (turns.foldl (turn room) p).state) := by
  induction turns generalizing p with
  | nil => exact .refl
  | cons turn turns ih => exact (reaches_turn room p turn).trans (ih _)

theorem reaches_complete (job : Nat) (p : WorkerPool σ β) :
    Reaches (p.jobs, p.state) ((p.complete job).jobs, (p.complete job).state) := by
  unfold complete
  split
  next task hjob => exact reaches_set hjob fun before after => reaches_run before after task _
  next => exact .refl

/-- The jobs have ended with the given results, or with the given failure in the first job that has
one. -/
inductive Gathered : Except Failure (List β) → List (Task σ β) → Prop
  | all (results : List β) : Gathered (.ok results) (results.map fun b => .done (.ok b))
  | failed (results : List β) (e : Failure) (later : List (Task σ β)) :
    Gathered (.error e) (results.map (fun b => .done (.ok b)) ++ .done (.error e) :: later)

theorem Gathered.cons {r : Except Failure (List β)} (h : Gathered r jobs) (b : β) :
    Gathered (r.map (b :: ·)) (.done (.ok b) :: jobs) := by
  cases h with
  | all results => exact .all (b :: results)
  | failed results e later => exact .failed (b :: results) e later

theorem reaches_foldl (before after rest : List (Task σ β)) (s : σ) :
    ∃ rest', Reaches (before ++ (rest ++ after), s)
      (before ++ (rest' ++ after), rest.foldl (fun s job => (job.run s).2) s) := by
  induction rest generalizing before s with
  | nil => exact ⟨[], .refl⟩
  | cons job rest ih =>
    obtain ⟨rest', hrest⟩ := ih (before ++ [.done (job.run s).1]) (job.run s).2
    refine ⟨.done (job.run s).1 :: rest', (reaches_run before (rest ++ after) job s).trans ?_⟩
    simpa using hrest

theorem reaches_gather (begun : Nat) (before jobs : List (Task σ β)) (s : σ) :
    ∃ jobs', Reaches (before ++ jobs, s) (before ++ jobs', (gather begun jobs s).2) ∧
      Gathered (gather begun jobs s).1 jobs' := by
  induction jobs generalizing begun before s with
  | nil => exact ⟨[], .refl, .all []⟩
  | cons job rest ih =>
    have hrun := reaches_run before rest job s
    unfold gather
    rcases hjob : job.run s with ⟨e | b, s'⟩
    · rw [hjob] at hrun
      obtain ⟨rest', hrest⟩ := reaches_foldl (before ++ [.done (.error e)])
        (rest.drop (begun - 1)) (rest.take (begun - 1)) s'
      rw [List.take_append_drop, List.append_assoc, List.append_assoc] at hrest
      exact ⟨_, hrun.trans hrest, .failed [] e _⟩
    · rw [hjob] at hrun
      obtain ⟨jobs', hrest, hgathered⟩ := ih (begun - 1) (before ++ [.done (.ok b)]) s'
      rw [List.append_assoc, List.append_assoc] at hrest
      exact ⟨_, hrun.trans hrest, hgathered.cons b⟩

/-- Whatever turns the workers take, what the jobs come to is reached by their steps. -/
theorem reaches_pool (room : Nat → Bool) (turns : List Turn) (jobs : List (Task σ β)) (s : σ) :
    ∃ jobs', Reaches (jobs, s) (jobs', (run room turns jobs s).2) ∧
      Gathered (run room turns jobs s).1 jobs' := by
  have hturns := reaches_turns room turns { jobs, state := s }
  unfold run
  dsimp only
  generalize turns.foldl (turn room) { jobs, state := s } = p at hturns ⊢
  cases p.holder with
  | none =>
    obtain ⟨jobs', hreaches, hgathered⟩ := reaches_gather p.begun [] p.jobs p.state
    exact ⟨jobs', hturns.trans hreaches, hgathered⟩
  | some job =>
    obtain ⟨jobs', hreaches, hgathered⟩ := reaches_gather (p.complete job).begun []
      (p.complete job).jobs (p.complete job).state
    exact ⟨jobs', (hturns.trans (reaches_complete job p)).trans hreaches, hgathered⟩

end WorkerPool

namespace Task

variable {σ β : Type}

/-- One job after the other is what is left when no job was begun. -/
theorem run_inTurn (jobs : List (Task σ β)) (s : σ) :
    (inTurn jobs).run s = WorkerPool.gather 0 jobs s := by
  induction jobs generalizing s with
  | nil => rfl
  | cons job rest ih =>
    unfold inTurn WorkerPool.gather
    rcases hjob : job.run s with ⟨e | b, s'⟩
    · rw [run_bind_error hjob]
      rfl
    · rw [run_bind_ok hjob, run_bind_pure, ih]

theorem Stepwise.inTurn {fails : Failure → Prop} {holds : ∀ α : Type, Task σ α → Prop}
    (h : Stepwise fails holds) {jobs : List (Task σ β)} (hjobs : ∀ job ∈ jobs, holds _ job) :
    holds _ (inTurn jobs) := by
  induction jobs with
  | nil => exact h.pure _
  | cons job rest ih =>
    refine h.bind (hjobs job List.mem_cons_self) fun b => ?_
    exact h.bind (ih fun other ho => hjobs other (List.mem_cons_of_mem job ho)) fun _ => h.pure _

end Task

namespace WorkerPool

variable {σ β M : Type} {jobs jobs' : List (Task σ β)} {s s' : σ}

/-- What each job keeps is kept by all, and each ends with its own property. -/
theorem Reaches.shared {γ : Type} {inv : σ → Prop} {post : γ → Except Failure β → Prop}
    (h : Reaches (jobs, s) (jobs', s')) {gs : List γ}
    (hjobs : List.Forall₂ (fun g => Task.Shared inv (post g)) gs jobs) (hs : inv s) :
    inv s' ∧ List.Forall₂ (fun g => Task.Shared inv (post g)) gs jobs' := by
  obtain ⟨gs', hjobs', rfl, hs'⟩ : ∃ gs',
      List.Forall₂ (fun g => Task.Shared inv (post g)) gs' jobs' ∧ gs' = gs ∧ inv s' := by
    refine h.keeps _ (fun gs' s => gs' = gs ∧ inv s) ?_ ?_ ?_ hjobs ⟨rfl, hs⟩
    · rintro before g after s change next (_ | ⟨hchange, hnext⟩) ⟨heq, hs⟩
      exact ⟨g, hnext s hs, heq, hchange s hs⟩
    · rintro g next ⟨⟩
      assumption
    · rintro g next ⟨⟩
      assumption
  exact ⟨hs', hjobs'⟩

/-- The cost grows by what the jobs have paid. -/
theorem Reaches.pays [AddCommMonoid M] {cost : σ → M} {worth : Except Failure β → M}
    (h : Reaches (jobs, s) (jobs', s')) {paid : List M}
    (hjobs : List.Forall₂ (Task.Pays cost worth) paid jobs) (start : M)
    (hs : cost s = start + paid.sum) :
    ∃ paid', List.Forall₂ (Task.Pays cost worth) paid' jobs' ∧ cost s' = start + paid'.sum := by
  refine h.keeps _ (fun paid s => cost s = start + paid.sum) ?_ ?_ ?_ hjobs hs
  · rintro before paid after s change next (_ | ⟨more, hcost, hnext⟩) hs
    refine ⟨paid + more s, hnext s, ?_⟩
    rw [hcost, hs]
    simp only [List.sum_append, List.sum_cons]
    abel
  · rintro paid next ⟨⟩
    assumption
  · rintro paid next ⟨⟩
    assumption

end WorkerPool

/-- Jobs that have ended have their results. -/
theorem forall₂_ended {γ σ β : Type} {inv : σ → Prop} {post : γ → Except Failure β → Prop}
    {gs : List γ} {results : List β}
    (h : List.Forall₂ (fun g => Task.Shared inv (post g)) gs
      (results.map fun b => Task.done (.ok b))) :
    List.Forall₂ (fun g b => post g (.ok b)) gs results := by
  refine (List.forall₂_map_right_iff.mp h).imp ?_
  rintro g b ⟨hb⟩
  exact hb

/-- Jobs that have ended have paid what their results are worth. -/
theorem paid_ended {σ β M : Type} [Add M] {cost : σ → M} {worth : Except Failure β → M}
    {paid : List M} {results : List β}
    (h : List.Forall₂ (Task.Pays cost worth) paid (results.map fun b => Task.done (.ok b))) :
    paid = results.map fun b => worth (.ok b) := by
  rw [← List.forall₂_eq_eq_eq]
  refine List.forall₂_map_right_iff.mpr ((List.forall₂_map_right_iff.mp h).imp ?_)
  rintro m b ⟨hm⟩
  exact hm

/-- Workers keep what each of their jobs keeps. -/
theorem Task.Keeps.pooled {σ β : Type} {inv : σ → Prop} {jobs : List (Task σ β)}
    (h : ∀ job ∈ jobs, Task.Shared inv (Task.Gives fun _ => True) job) (room : Nat → Bool)
    (turns : List Turn) : Task.Keeps inv (Task.pooled room turns jobs) := by
  intro s hs
  obtain ⟨jobs', hreaches, _⟩ := WorkerPool.reaches_pool room turns jobs s
  have hjobs : List.Forall₂ (fun _ => Task.Shared inv (Task.Gives fun _ => True)) jobs jobs :=
    List.forall₂_same.mpr h
  exact (hreaches.shared hjobs hs).1

end NPlusOne
