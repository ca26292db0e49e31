import Mathlib.Algebra.Group.Defs
import NPlusOne.Project
import NPlusOne.Proofs.TaskRun

namespace NPlusOne

namespace Task

variable {σ τ α β M : Type}

/-- Each step of the task keeps the property of the state, as long as others keep it between the
steps, and the task ends with `post`. -/
inductive Shared (inv : σ → Prop) (post : Except Failure α → Prop) : Task σ α → Prop
  | done {result} : post result → Shared inv post (.done result)
  | step {change next} : (∀ s, inv s → inv (change s)) →
    (∀ s, inv s → Shared inv post (next s)) → Shared inv post (.step change next)
  | lock {next} : Shared inv post next → Shared inv post (.lock next)
  | unlock {next} : Shared inv post next → Shared inv post (.unlock next)

/-- The property holds of the result, if there is one. -/
def Gives (good : α → Prop) (result : Except Failure α) : Prop :=
  ∀ a, result = .ok a → good a

theorem gives_ok {good : α → Prop} {a : α} : Gives good (.ok a) ↔ good a :=
  ⟨fun h => h a rfl, fun h _ ha => Except.ok.inj ha ▸ h⟩

theorem gives_error (good : α → Prop) (e : Failure) : Gives good (.error e) :=
  fun _ h => nomatch h

namespace Shared

variable {inv : σ → Prop}

theorem any (task : Task σ α) : Shared (fun _ => True) (fun _ => True) task := by
  induction task with
  | done r => exact .done trivial
  | step change next ih => exact .step (fun _ _ => trivial) fun s _ => ih s
  | lock next ih => exact .lock ih
  | unlock next ih => exact .unlock ih

theorem pure {good : α → Prop} {a : α} (h : good a) : Shared inv (Gives good) (Pure.pure a) :=
  .done (gives_ok.mpr h)

theorem throw {good : α → Prop} (e : Failure) :
    Shared inv (Gives good) (MonadExcept.throw e : Task σ α) :=
  .done (gives_error good e)

theorem ofExcept_eq (r : Except Failure α) :
    Shared inv (Gives fun a => r = .ok a) (Task.ofExcept r) :=
  .done fun _ h => h

theorem ofExcept (r : Except Failure α) : Shared inv (Gives fun _ => True) (Task.ofExcept r) :=
  .done fun _ _ => trivial

theorem get : Shared inv (Gives inv) (MonadState.get : Task σ σ) :=
  .step (fun _ hs => hs) fun _ hs => .done (gives_ok.mpr hs)

theorem modify_bind {f : σ → σ} {g : PUnit → Task σ α} {post : Except Failure α → Prop}
    (hf : ∀ s, inv s → inv (f s)) (hg : Shared inv post (g ⟨⟩)) :
    Shared inv post ((modify f : Task σ PUnit) >>= g) :=
  .step hf fun _ _ => hg

theorem modify {f : σ → σ} (hf : ∀ s, inv s → inv (f s)) :
    Shared inv (Gives fun _ => True) (modify f : Task σ PUnit) :=
  .step hf fun _ _ => .done fun _ _ => trivial

theorem modifyGet {f : σ → α × σ} (hf : ∀ s, inv s → inv (f s).2) :
    Shared inv (Gives fun _ => True) (modifyGet f : Task σ α) :=
  .step hf fun _ _ => .done fun _ _ => trivial

theorem andThen {x : Task σ α} {f : α → Task σ β} {mid : Except Failure α → Prop}
    {post : Except Failure β → Prop} (hx : Shared inv mid x)
    (hf : ∀ a, mid (.ok a) → Shared inv post (f a))
    (he : ∀ e, mid (.error e) → post (.error e)) : Shared inv post (x >>= f) := by
  induction hx with
  | @done r hr =>
    cases r with
    | ok a => exact hf a hr
    | error e => exact .done (he e hr)
  | step hchange _ ih => exact .step hchange ih
  | lock _ ih => exact .lock ih
  | unlock _ ih => exact .unlock ih

theorem bind {x : Task σ α} {f : α → Task σ β} {good : α → Prop} {good' : β → Prop}
    (hx : Shared inv (Gives good) x) (hf : ∀ a, good a → Shared inv (Gives good') (f a)) :
    Shared inv (Gives good') (x >>= f) :=
  hx.andThen (fun a ha => hf a (gives_ok.mp ha)) fun e _ => gives_error good' e

theorem attempt_bind {x : Task σ α} {f : Except Failure α → Task σ β}
    {mid : Except Failure α → Prop} {post : Except Failure β → Prop} (hx : Shared inv mid x)
    (hf : ∀ r, mid r → Shared inv post (f r)) : Shared inv post (x.attempt >>= f) := by
  induction hx with
  | done hr => exact hf _ hr
  | step hchange _ ih => exact .step hchange ih
  | lock _ ih => exact .lock ih
  | unlock _ ih => exact .unlock ih

theorem within {get : σ → τ} {set : τ → σ → σ} {hp : IsPart get set} {partInv : τ → Prop}
    {post : Except Failure α → Prop} {task : Task τ α} (hget : ∀ s, inv s → partInv (get s))
    (hset : ∀ s t, inv s → partInv t → inv (set t s)) (h : Shared partInv post task) :
    Shared inv post (Task.within get set task hp) := by
  induction h with
  | done h => exact .done h
  | step hchange _ ih =>
    exact .step (fun s hs => hset s _ hs (hchange _ (hget s hs))) fun s hs => ih _ (hget s hs)
  | lock _ ih => exact .lock ih
  | unlock _ ih => exact .unlock ih

theorem locked {x : Task σ α} {post : Except Failure α → Prop} (hx : Shared inv post x) :
    Shared inv post x.locked := by
  refine .lock ?_
  induction hx with
  | done h => exact .unlock (.done h)
  | step hchange _ ih => exact .step hchange ih
  | lock _ ih => exact .lock ih
  | unlock _ ih => exact .unlock ih

theorem catchParse {x : Task σ α} {good : α → Prop} (hx : Shared inv (Gives good) x) :
    Shared inv (Gives fun outcome => ∀ a, outcome = .ok a → good a) (NPlusOne.catchParse x) := by
  refine hx.attempt_bind fun result hresult => ?_
  split
  next a =>
    refine pure ?_
    rintro _ ⟨⟩
    exact gives_ok.mp hresult
  next => exact pure (by simp)
  next => exact throw _

theorem attempt {x : Task σ α} {post : Except Failure α → Prop} (hx : Shared inv post x) :
    Shared inv (Gives fun _ => True) x.attempt := by
  induction hx with
  | done => exact .done fun _ _ => trivial
  | step hchange _ ih => exact .step hchange ih
  | lock _ ih => exact .lock ih
  | unlock _ ih => exact .unlock ih

/-- What a task keeps among others it also keeps alone. -/
theorem keeps {task : Task σ α} {post : Except Failure α → Prop} (h : Shared inv post task) :
    Keeps inv task := by
  intro s hs
  induction h generalizing s with
  | done => exact hs
  | step hchange _ ih => exact ih s hs _ (hchange s hs)
  | lock _ ih => exact ih s hs
  | unlock _ ih => exact ih s hs

theorem stepwise (inv : σ → Prop) :
    Stepwise (fun _ => True) fun α (task : Task σ α) => Shared inv (Gives fun _ => True) task :=
  ⟨fun _ => pure trivial, fun e _ => throw e, fun hx hf => hx.bind fun a _ => hf a, locked⟩

end Shared

/-- Each step of the task adds to the cost, and in the end it has added what its result is worth.
So much it has `paid` before. -/
inductive Pays [Add M] (cost : σ → M) (worth : Except Failure α → M) : M → Task σ α → Prop
  | done {paid result} : paid = worth result → Pays cost worth paid (.done result)
  | step {paid change next} (more : σ → M) : (∀ s, cost (change s) = cost s + more s) →
    (∀ s, Pays cost worth (paid + more s) (next s)) → Pays cost worth paid (.step change next)
  | lock {paid next} : Pays cost worth paid next → Pays cost worth paid (.lock next)
  | unlock {paid next} : Pays cost worth paid next → Pays cost worth paid (.unlock next)

namespace Pays

variable [AddMonoid M] {cost : σ → M} {paid : M}

theorem modify_bind {f : σ → σ} {g : PUnit → Task σ α} {worth : Except Failure α → M} (more : M)
    (h : ∀ s, cost (f s) = cost s + more) (hg : Pays cost worth (paid + more) (g ⟨⟩)) :
    Pays cost worth paid ((modify f : Task σ PUnit) >>= g) :=
  .step (fun _ => more) h fun _ => hg

/-- A step that leaves the cost as it is. -/
theorem free_bind {f : σ → σ} {g : PUnit → Task σ α} {worth : Except Failure α → M}
    (h : ∀ s, cost (f s) = cost s) (hg : Pays cost worth paid (g ⟨⟩)) :
    Pays cost worth paid ((modify f : Task σ PUnit) >>= g) :=
  modify_bind 0 (fun s => (h s).trans (add_zero _).symm) (by rwa [add_zero])

theorem bind {x : Task σ α} {f : α → Task σ β} {mid : Except Failure α → M}
    {worth : Except Failure β → M} (hx : Pays cost mid paid x)
    (hf : ∀ a, Pays cost worth (mid (.ok a)) (f a))
    (he : ∀ e, mid (.error e) = worth (.error e)) : Pays cost worth paid (x >>= f) := by
  induction hx with
  | @done _ r hr =>
    subst hr
    cases r with
    | ok a => exact hf a
    | error e => exact .done (he e)
  | step more hcost _ ih => exact .step more hcost ih
  | lock _ ih => exact .lock ih
  | unlock _ ih => exact .unlock ih

/-- A task in a part of the state that the cost does not depend on is free. -/
theorem within {get : σ → τ} {set : τ → σ → σ} {hp : IsPart get set} (task : Task τ α)
    (h : ∀ t s, cost (set t s) = cost s) :
    Pays cost (fun _ => paid) paid (Task.within get set task hp) := by
  induction task with
  | done r => exact .done rfl
  | step change next ih =>
    refine .step (fun _ => 0) (fun s => by rw [h, add_zero]) fun s => ?_
    rw [add_zero]
    exact ih _
  | lock next ih => exact .lock ih
  | unlock next ih => exact .unlock ih

theorem attempt_bind {x : Task σ α} {f : Except Failure α → Task σ β} {mid : Except Failure α → M}
    {worth : Except Failure β → M} (hx : Pays cost mid paid x)
    (hf : ∀ r, Pays cost worth (mid r) (f r)) : Pays cost worth paid (x.attempt >>= f) := by
  induction hx with
  | done hr => exact hr ▸ hf _
  | step more hcost _ ih => exact .step more hcost ih
  | lock _ ih => exact .lock ih
  | unlock _ ih => exact .unlock ih

end Pays

end Task

end NPlusOne
