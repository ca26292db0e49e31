import NPlusOne.Project
import NPlusOne.Proofs.TaskRun

namespace NPlusOne

namespace Task

variable {σ τ α β : Type}

/-- From related states the task gives the same result and leaves related states, whether it fails
or not. -/
def Mirrors (rel : σ → σ → Prop) (task : Task σ α) : Prop :=
  ∀ st st', rel st st' → (task.run st).1 = (task.run st').1 ∧ rel (task.run st).2 (task.run st').2

namespace Mirrors

variable {rel : σ → σ → Prop}

theorem pure (a : α) : Mirrors rel (Pure.pure a) :=
  fun _ _ h => ⟨rfl, h⟩

theorem throw (e : Failure) : Mirrors rel (MonadExcept.throw e : Task σ α) :=
  fun _ _ h => ⟨rfl, h⟩

theorem ofExcept (r : Except Failure α) : Mirrors rel (Task.ofExcept r) :=
  fun _ _ h => ⟨rfl, h⟩

theorem modify {f : σ → σ} (hf : ∀ st st', rel st st' → rel (f st) (f st')) :
    Mirrors rel (modify f : Task σ PUnit) :=
  fun st st' h => ⟨rfl, hf st st' h⟩

theorem bind {x : Task σ α} {f : α → Task σ β} (hx : Mirrors rel x)
    (hf : ∀ a, Mirrors rel (f a)) : Mirrors rel (x >>= f) := by
  intro st st' h
  obtain ⟨hres, hrel⟩ := hx st st' h
  rw [run_bind, run_bind, ← hres]
  cases (x.run st).1 with
  | error e => exact ⟨rfl, hrel⟩
  | ok a => exact hf a _ _ hrel

/-- What is done next may depend on the state, as long as related states lead to the same. -/
theorem get_bind {f : σ → Task σ β} (hview : ∀ st st', rel st st' → f st = f st')
    (hf : ∀ st, Mirrors rel (f st)) : Mirrors rel (MonadState.get >>= f) := by
  intro st st' h
  rw [run_bind_ok (run_get st), run_bind_ok (run_get st'), hview st st' h]
  exact hf st' st st' h

theorem within {part : σ → τ} {set : τ → σ → σ} {partRel : τ → τ → Prop} {task : Task τ α}
    {hp : IsPart part set} (hpart : ∀ st st', rel st st' → partRel (part st) (part st'))
    (hset : ∀ st st' t t', rel st st' → partRel t t' → rel (set t st) (set t' st'))
    (h : Mirrors partRel task) : Mirrors rel (Task.within part set task hp) := by
  intro st st' hst
  obtain ⟨hres, hrel⟩ := h _ _ (hpart st st' hst)
  rw [run_within, run_within]
  exact ⟨hres, hset st st' _ _ hst hrel⟩

theorem attempt {task : Task σ α} (h : Mirrors rel task) : Mirrors rel (Task.attempt task) := by
  intro st st' hst
  obtain ⟨hres, hrel⟩ := h st st' hst
  rw [run_attempt, run_attempt]
  exact ⟨congrArg Except.ok hres, hrel⟩

theorem catchParse {task : Task σ α} (h : Mirrors rel task) :
    Mirrors rel (NPlusOne.catchParse task) := by
  refine h.attempt.bind fun result => ?_
  split
  · exact pure _
  · exact pure _
  · exact throw _

theorem locked {task : Task σ α} (h : Mirrors rel task) : Mirrors rel task.locked := by
  intro st st' hst
  rw [run_locked, run_locked]
  exact h st st' hst

theorem stepwise (rel : σ → σ → Prop) :
    Stepwise (fun _ => True) fun α (task : Task σ α) => Mirrors rel task :=
  ⟨pure, fun e _ => throw e, bind, locked⟩

theorem forIn {xs : List α} {b : β} {f : α → β → Task σ (ForInStep β)}
    (hf : ∀ a b, Mirrors rel (f a b)) : Mirrors rel (ForIn.forIn xs b f) :=
  (stepwise rel).forIn hf

end Mirrors

/-- From related states the task gives the same result, and what it leaves is related by `post`. -/
def MirrorsInto (rel : σ → σ → Prop) (task : Task σ α) (post : σ → σ → Prop) : Prop :=
  ∀ st st', rel st st' → (task.run st).1 = (task.run st').1 ∧ post (task.run st).2 (task.run st').2

namespace MirrorsInto

variable {rel post : σ → σ → Prop}

theorem of_mirrors {task : Task σ α} (h : Mirrors rel task)
    (hpost : ∀ st st', rel st st' → post st st') : MirrorsInto rel task post := by
  intro st st' hst
  obtain ⟨hres, hrel⟩ := h st st' hst
  exact ⟨hres, hpost _ _ hrel⟩

theorem given (mid : σ → σ → Prop) {task : Task σ α} (hrel : ∀ st st', rel st st' → mid st st')
    (h : MirrorsInto mid task post) : MirrorsInto rel task post :=
  fun st st' hst => h st st' (hrel st st' hst)

theorem bind {x : Task σ α} {f : α → Task σ β} (hx : Mirrors rel x)
    (hpost : ∀ st st', rel st st' → post st st') (hf : ∀ a, MirrorsInto rel (f a) post) :
    MirrorsInto rel (x >>= f) post := by
  intro st st' h
  obtain ⟨hres, hrel⟩ := hx st st' h
  rw [run_bind, run_bind, ← hres]
  cases (x.run st).1 with
  | error e => exact ⟨rfl, hpost _ _ hrel⟩
  | ok a => exact hf a _ _ hrel

end MirrorsInto

/-- What is left of a result when a parse error is caught. -/
def caught : Except Failure α → Except Failure (Except ParseError α)
  | .ok a => .ok (.ok a)
  | .error (.parse e) => .ok (.error e)
  | .error e => .error e

theorem caught_map (r : Except Failure α) (g : α → β) :
    caught (r.map g) = (caught r).map (Except.map g) := by
  cases r with
  | ok a => rfl
  | error e => cases e <;> rfl

theorem run_catchParse (task : Task σ α) (st : σ) :
    (NPlusOne.catchParse task).run st = (caught (task.run st).1, (task.run st).2) := by
  unfold NPlusOne.catchParse
  rw [run_bind_ok (run_attempt task st)]
  rcases task.run st with ⟨e | a, st'⟩
  · cases e <;> rfl
  · rfl

end Task

end NPlusOne
