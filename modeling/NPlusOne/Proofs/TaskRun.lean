import NPlusOne.Task

namespace NPlusOne

/-- A result behind a result. -/
theorem except_bind_eq_ok {α β : Type} {x : Except Failure α} {f : α → Except Failure β} {b : β} :
    x >>= f = .ok b ↔ ∃ a, x = .ok a ∧ f a = .ok b := by
  cases x with
  | error e =>
    constructor
    · intro h
      cases h
    · rintro ⟨_, h, _⟩
      cases h
  | ok a =>
    constructor
    · exact fun h => ⟨a, rfl, h⟩
    · rintro ⟨_, h, hf⟩
      cases h
      exact hf

theorem except_bind_eq_error {α β : Type} {x : Except Failure α} {f : α → Except Failure β}
    {e : Failure} : x >>= f = .error e ↔ x = .error e ∨ ∃ a, x = .ok a ∧ f a = .error e := by
  cases x with
  | error e' =>
    have hbind : (Except.error e' : Except Failure α) >>= f = .error e' := rfl
    simp [hbind]
  | ok a =>
    have hbind : Except.ok a >>= f = f a := rfl
    simp [hbind]

section Traversal

variable {α β : Type} {f : α → Except Failure β} {xs : List α} {ys : List β}

theorem except_mapM_returns : (∃ ys, xs.mapM f = .ok ys) ↔ ∀ x ∈ xs, ∃ y, f x = .ok y := by
  induction xs with
  | nil => exact iff_of_true ⟨[], rfl⟩ (by simp)
  | cons x xs ih =>
    rw [List.forall_mem_cons, ← ih]
    simp only [List.mapM_cons, except_bind_eq_ok]
    constructor
    · rintro ⟨_, y, hy, ys, hys, _⟩
      exact ⟨⟨y, hy⟩, ys, hys⟩
    · rintro ⟨⟨y, hy⟩, ys, hys⟩
      exact ⟨_, y, hy, ys, hys, rfl⟩

theorem mem_except_mapM (h : xs.mapM f = .ok ys) {y : β} :
    y ∈ ys ↔ ∃ x ∈ xs, f x = .ok y := by
  induction xs generalizing ys with
  | nil =>
    cases h
    simp
  | cons x xs ih =>
    rw [List.mapM_cons] at h
    obtain ⟨first, hfirst, h⟩ := except_bind_eq_ok.mp h
    obtain ⟨rest, hrest, h⟩ := except_bind_eq_ok.mp h
    cases h
    rw [List.mem_cons, ih hrest]
    simp [hfirst, eq_comm]

/-- A traversal of the same elements, in another order or repeated, has the same results. -/
theorem exists_except_mapM {xs' : List α} (hmem : ∀ x, x ∈ xs' ↔ x ∈ xs)
    (h : xs.mapM f = .ok ys) : ∃ ys', xs'.mapM f = .ok ys' ∧ ∀ y, y ∈ ys' ↔ y ∈ ys := by
  obtain ⟨ys', hys'⟩ := except_mapM_returns.mpr fun x hx =>
    except_mapM_returns.mp ⟨ys, h⟩ x ((hmem x).mp hx)
  refine ⟨ys', hys', fun y => ?_⟩
  simp only [mem_except_mapM hys', mem_except_mapM h, hmem]

end Traversal

namespace Task

variable {σ τ α β : Type}

@[simp] theorem run_get (st : σ) : (get : Task σ σ).run st = (.ok st, st) := rfl

@[simp] theorem run_ofExcept (r : Except Failure α) (st : σ) :
    (ofExcept r : Task σ α).run st = (r, st) := rfl

theorem andThen_assoc {γ : Type} (x : Task σ α) (f : α → Task σ β) (g : β → Task σ γ) :
    (x.andThen f).andThen g = x.andThen fun a => (f a).andThen g := by
  induction x with
  | done r => cases r <;> rfl
  | step change next ih => exact congrArg (Task.step change) (funext ih)
  | lock next ih => exact congrArg Task.lock ih
  | unlock next ih => exact congrArg Task.unlock ih

theorem andThen_pure (x : Task σ α) : (x.andThen fun a => .done (.ok a)) = x := by
  induction x with
  | done r => cases r <;> rfl
  | step change next ih => exact congrArg (Task.step change) (funext ih)
  | lock next ih => exact congrArg Task.lock ih
  | unlock next ih => exact congrArg Task.unlock ih

instance : LawfulMonad (Task σ) :=
  LawfulMonad.mk' (Task σ) andThen_pure (fun _ _ => rfl) andThen_assoc

@[simp] theorem run_within (get : σ → τ) (set : τ → σ → σ) (task : Task τ α) (h : IsPart get set)
    (st : σ) :
    (within get set task h).run st = ((task.run (get st)).1, set (task.run (get st)).2 st) := by
  induction task generalizing st with
  | done r => exact congrArg (Prod.mk r) (h.set_get st).symm
  | step change next ih =>
    refine (ih (get st) (set (change (get st)) st)).trans ?_
    rw [h.get_set, h.set_set]
    rfl
  | lock next ih => exact ih st
  | unlock next ih => exact ih st

theorem ofExcept_ok_bind (a : α) (f : α → Task σ β) : ofExcept (.ok a) >>= f = f a := rfl

theorem run_ofExcept_bind {r : Except Failure α} {a : α} (h : r = .ok a) (f : α → Task σ β)
    (st : σ) : (ofExcept r >>= f).run st = (f a).run st := by
  rw [h, ofExcept_ok_bind]

theorem run_bind_ok {x : Task σ α} {f : α → Task σ β} {st st' : σ} {a : α}
    (h : x.run st = (.ok a, st')) : (x >>= f).run st = (f a).run st' := by
  induction x generalizing st with
  | done r =>
    obtain ⟨rfl, rfl⟩ := Prod.mk.inj h
    rfl
  | step change next ih => exact ih st h
  | lock next ih => exact ih h
  | unlock next ih => exact ih h

theorem run_bind_error {x : Task σ α} {f : α → Task σ β} {st st' : σ} {e : Failure}
    (h : x.run st = (.error e, st')) : (x >>= f).run st = (.error e, st') := by
  induction x generalizing st with
  | done r =>
    obtain ⟨rfl, rfl⟩ := Prod.mk.inj h
    rfl
  | step change next ih => exact ih st h
  | lock next ih => exact ih h
  | unlock next ih => exact ih h

/-- What a task has changed before it fails stays changed. -/
theorem run_bind (x : Task σ α) (f : α → Task σ β) (st : σ) :
    (x >>= f).run st = match (x.run st).1 with
      | .ok a => (f a).run (x.run st).2
      | .error e => (.error e, (x.run st).2) := by
  rcases h : x.run st with ⟨e | a, st'⟩
  · exact run_bind_error h
  · exact run_bind_ok h

theorem run_bind_pure (x : Task σ α) (g : α → β) (st : σ) :
    (x >>= fun a => pure (g a)).run st = ((x.run st).1.map g, (x.run st).2) := by
  rw [run_bind]
  cases (x.run st).1 <;> rfl

/-- A sequence that gives a result has a first part that gives one. -/
theorem run_bind_eq_ok {x : Task σ α} {f : α → Task σ β} {st st' : σ} {b : β}
    (h : (x >>= f).run st = (.ok b, st')) :
    ∃ a mid, x.run st = (.ok a, mid) ∧ (f a).run mid = (.ok b, st') := by
  rcases hx : x.run st with ⟨e | a, mid⟩
  · rw [run_bind_error hx] at h
    cases h
  · rw [run_bind_ok hx] at h
    exact ⟨a, mid, rfl, h⟩

theorem ofExcept_bind_eq_ok {r : Except Failure α} {f : α → Task σ β} {st st' : σ} {b : β}
    (h : (ofExcept r >>= f).run st = (.ok b, st')) :
    ∃ a, r = .ok a ∧ (f a).run st = (.ok b, st') := by
  cases r with
  | error e => cases h
  | ok a => exact ⟨a, rfl, h⟩

@[simp] theorem run_attempt (task : Task σ α) (st : σ) :
    (attempt task).run st = (.ok (task.run st).1, (task.run st).2) := by
  induction task generalizing st with
  | done r => rfl
  | step change next ih => exact ih st (change st)
  | lock next ih => exact ih st
  | unlock next ih => exact ih st

@[simp] theorem run_unlocking (task : Task σ α) (st : σ) : task.unlocking.run st = task.run st := by
  induction task generalizing st with
  | done r => rfl
  | step change next ih => exact ih st (change st)
  | lock next ih => exact ih st
  | unlock next ih => exact ih st

@[simp] theorem run_locked (task : Task σ α) (st : σ) : task.locked.run st = task.run st :=
  run_unlocking task st

/-- A property that a task has if its steps have it and it ends with no other failures than the
given ones. -/
structure Stepwise (fails : Failure → Prop) (holds : ∀ α : Type, Task σ α → Prop) : Prop where
  pure : ∀ {α : Type} (a : α), holds α (Pure.pure a)
  throw : ∀ {α : Type} (e : Failure), fails e → holds α (MonadExcept.throw e)
  bind : ∀ {α β : Type} {x : Task σ α} {f : α → Task σ β}, holds α x → (∀ a, holds β (f a)) →
    holds β (x >>= f)
  locked : ∀ {α : Type} {x : Task σ α}, holds α x → holds α x.locked

namespace Stepwise

variable {fails : Failure → Prop} {holds : ∀ α : Type, Task σ α → Prop}

theorem ofExcept (h : Stepwise fails holds) {r : Except Failure α}
    (hr : ∀ e, r = .error e → fails e) : holds α (Task.ofExcept r) := by
  cases r with
  | ok a => exact h.pure a
  | error e => exact h.throw e (hr e rfl)

theorem of (h : Stepwise (fun _ => True) holds) (r : Except Failure α) :
    holds α (Task.ofExcept r) :=
  h.ofExcept fun _ _ => trivial

theorem forIn (h : Stepwise fails holds) {xs : List α} {b : β} {f : α → β → Task σ (ForInStep β)}
    (hf : ∀ a b, holds _ (f a b)) : holds _ (ForIn.forIn xs b f) := by
  induction xs generalizing b with
  | nil => exact h.pure b
  | cons x xs ih =>
    rw [List.forIn_cons]
    refine h.bind (hf x b) fun step => ?_
    cases step with
    | done b => exact h.pure b
    | yield b => exact ih

end Stepwise

/-- The task does not take the property from the state, whether it fails or not. -/
def Keeps (inv : σ → Prop) (task : Task σ α) : Prop :=
  ∀ st, inv st → inv (task.run st).2

namespace Keeps

variable {inv : σ → Prop}

theorem of_run {task : Task σ α} {r : Except Failure α} {st st' : σ} (h : Keeps inv task)
    (hr : task.run st = (r, st')) (hst : inv st) : inv st' := by
  have hst' := h st hst
  rwa [hr] at hst'

theorem pure (a : α) : Keeps inv (Pure.pure a) :=
  fun _ hst => hst

theorem throw (e : Failure) : Keeps inv (MonadExcept.throw e : Task σ α) :=
  fun _ hst => hst

theorem ofExcept (r : Except Failure α) : Keeps inv (Task.ofExcept r) :=
  fun _ hst => hst

theorem get : Keeps inv (MonadState.get : Task σ σ) :=
  fun _ hst => hst

theorem modify {f : σ → σ} (hf : ∀ st, inv st → inv (f st)) :
    Keeps inv (modify f : Task σ PUnit) :=
  fun st hst => hf st hst

theorem bind {x : Task σ α} {f : α → Task σ β} (hx : Keeps inv x) (hf : ∀ a, Keeps inv (f a)) :
    Keeps inv (x >>= f) := by
  intro st hst
  have hst' := hx st hst
  rw [run_bind]
  cases (x.run st).1 with
  | error e => exact hst'
  | ok a => exact hf a _ hst'

theorem within {get : σ → τ} {set : τ → σ → σ} {task : Task τ α} {hp : IsPart get set}
    (h : ∀ st, inv st → inv (set (task.run (get st)).2 st)) :
    Keeps inv (Task.within get set task hp) := by
  intro st hst
  rw [run_within]
  exact h st hst

theorem attempt {task : Task σ α} (h : Keeps inv task) : Keeps inv (Task.attempt task) := by
  intro st hst
  rw [run_attempt]
  exact h st hst

theorem locked {task : Task σ α} (h : Keeps inv task) : Keeps inv task.locked := by
  intro st hst
  rw [run_locked]
  exact h st hst

theorem stepwise (inv : σ → Prop) :
    Stepwise (fun _ => True) fun α (task : Task σ α) => Keeps inv task :=
  ⟨pure, fun e _ => throw e, bind, locked⟩

theorem forIn {xs : List α} {b : β} {f : α → β → Task σ (ForInStep β)}
    (hf : ∀ a b, Keeps inv (f a b)) : Keeps inv (ForIn.forIn xs b f) :=
  (stepwise inv).forIn hf

end Keeps

/-- From a state with `pre`, a result that the task gives and the state it leaves have `post`. -/
def Ensures (pre : σ → Prop) (task : Task σ α) (post : α → σ → Prop) : Prop :=
  ∀ st, pre st → ∀ a, (task.run st).1 = .ok a → post a (task.run st).2

namespace Ensures

variable {pre : σ → Prop}

theorem pure {post : α → σ → Prop} {a : α} (h : ∀ st, pre st → post a st) :
    Ensures pre (Pure.pure a) post := by
  intro st hst b hb
  cases hb
  exact h st hst

theorem given {pre' : σ → Prop} {task : Task σ α} {post : α → σ → Prop}
    (hp : ∀ st, pre st → pre' st) (h : Ensures pre' task post) : Ensures pre task post :=
  fun st hst => h st (hp st hst)

theorem mono {task : Task σ α} {post post' : α → σ → Prop} (h : Ensures pre task post)
    (hp : ∀ a st, post a st → post' a st) : Ensures pre task post' :=
  fun st hst a ha => hp a _ (h st hst a ha)

theorem bind {x : Task σ α} {f : α → Task σ β} {mid : α → σ → Prop} {post : β → σ → Prop}
    (hx : Ensures pre x mid) (hf : ∀ a, Ensures (mid a) (f a) post) :
    Ensures pre (x >>= f) post := by
  intro st hst b hb
  have hmid := hx st hst
  rw [run_bind] at hb ⊢
  cases hres : (x.run st).1 with
  | error e =>
    rw [hres] at hb
    cases hb
  | ok a =>
    rw [hres] at hb
    exact hf a _ (hmid a hres) b hb

/-- The second part may rely on what the first one keeps. -/
theorem keeping {x : Task σ α} {f : α → Task σ β} {post : β → σ → Prop} (hx : Keeps pre x)
    (hf : ∀ a, Ensures pre (f a) post) : Ensures pre (x >>= f) post :=
  bind (fun st hst _ _ => hx st hst) hf

/-- What the first part does need not matter. -/
theorem after {x : Task σ α} {f : α → Task σ β} {post : β → σ → Prop}
    (hf : ∀ a, Ensures (fun _ => True) (f a) post) : Ensures pre (x >>= f) post :=
  bind (fun _ _ _ _ => trivial) hf

theorem within {get : σ → τ} {set : τ → σ → σ} {task : Task τ α} {post : α → τ → Prop}
    {hp : IsPart get set} (h : Ensures (fun _ => True) task post) :
    Ensures pre (Task.within get set task hp) fun a st => post a (get st) := by
  intro st _ a ha
  rw [run_within] at ha ⊢
  rw [hp.get_set]
  exact h (get st) trivial a ha

theorem get_bind {f : σ → Task σ β} {post : β → σ → Prop}
    (hf : ∀ now, pre now → Ensures (fun _ => True) (f now) post) :
    Ensures pre (MonadState.get >>= f) post := by
  intro st hst
  rw [run_bind_ok (run_get st)]
  exact hf st hst st trivial

theorem locked {task : Task σ α} {post : α → σ → Prop} (h : Ensures pre task post) :
    Ensures pre task.locked post := by
  intro st hst a ha
  rw [run_locked] at ha ⊢
  exact h st hst a ha

theorem of_prop {P : Prop} {task : Task σ α} {post : α → σ → Prop}
    (h : P → Ensures (fun _ => True) task post) : Ensures (fun _ => P) task post :=
  fun st hp => h hp st trivial

end Ensures

/-- From a state with `pre`, the task leads to one with `post`, whether it fails or not. -/
def Leads (pre : σ → Prop) (task : Task σ α) (post : σ → Prop) : Prop :=
  ∀ st, pre st → post (task.run st).2

namespace Leads

variable {pre post : σ → Prop}

/-- The second part may rely on what the first one has kept and given. -/
theorem bind {x : Task σ α} {f : α → Task σ β} {given : α → σ → Prop}
    (hp : ∀ st, pre st → post st) (hx : Keeps pre x) (hg : Ensures pre x given)
    (hf : ∀ a, Leads (fun st => pre st ∧ given a st) (f a) post) : Leads pre (x >>= f) post := by
  intro st hst
  have hst' := hx st hst
  have hgiven := hg st hst
  rw [run_bind]
  cases hres : (x.run st).1 with
  | error e => exact hp _ hst'
  | ok a => exact hf a _ ⟨hst', hgiven a hres⟩

theorem after {x : Task σ α} {f : α → Task σ β} (hp : ∀ st, pre st → post st) (hx : Keeps pre x)
    (hf : ∀ a, Leads pre (f a) post) : Leads pre (x >>= f) post := by
  have hg : Ensures pre x fun _ _ => True := fun _ _ _ _ => trivial
  exact bind hp hx hg fun a st hst => hf a st hst.1

end Leads

/-- What is kept also holds with every result. -/
theorem Keeps.ensures {inv : σ → Prop} {task : Task σ α} {post : α → σ → Prop} (h : Keeps inv task)
    (hp : Ensures inv task post) : Ensures inv task fun a st => inv st ∧ post a st :=
  fun st hst a ha => ⟨h st hst, hp st hst a ha⟩

/-- The task never ends with the failure. -/
def Avoids (e : Failure) (task : Task σ α) : Prop :=
  ∀ st, (task.run st).1 ≠ .error e

namespace Avoids

variable {e : Failure}

theorem pure (a : α) : Avoids e (Pure.pure a : Task σ α) :=
  fun _ h => by cases h

theorem get : Avoids e (MonadState.get : Task σ σ) :=
  fun _ h => by cases h

theorem modify (f : σ → σ) : Avoids e (modify f : Task σ PUnit) :=
  fun _ h => by cases h

theorem bind {x : Task σ α} {f : α → Task σ β} (hx : Avoids e x) (hf : ∀ a, Avoids e (f a)) :
    Avoids e (x >>= f) := by
  intro st
  rcases h : x.run st with ⟨e' | a, st'⟩
  · rw [run_bind_error h]
    have hne := hx st
    rw [h] at hne
    simpa using hne
  · rw [run_bind_ok h]
    exact hf a st'

theorem within {get : σ → τ} {set : τ → σ → σ} {task : Task τ α} {hp : IsPart get set}
    (h : Avoids e task) : Avoids e (Task.within get set task hp) := by
  intro st
  rw [run_within]
  exact h (get st)

theorem locked {task : Task σ α} (h : Avoids e task) : Avoids e task.locked := by
  intro st
  rw [run_locked]
  exact h st

theorem throw {e' : Failure} (h : e' ≠ e) : Avoids e (MonadExcept.throw e' : Task σ α) :=
  fun _ he => h (Except.error.inj he)

theorem stepwise (e : Failure) :
    Stepwise (· ≠ e) fun α (task : Task σ α) => Avoids e task :=
  ⟨pure, fun _ => throw, bind, locked⟩

end Avoids

end Task

end NPlusOne
