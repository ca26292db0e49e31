import NPlusOne.Failure

namespace NPlusOne

/-- A computation that may end early. A step reads the state and changes it at once; between two
steps others may change it. What was changed before a failure stays changed. -/
inductive Task (σ α : Type) : Type where
  | done (result : Except Failure α)
  | step (change : σ → σ) (next : σ → Task σ α)
  /-- Goes on once the lock is free, and takes it. -/
  | lock (next : Task σ α)
  | unlock (next : Task σ α)

structure IsPart {σ τ : Type} (get : σ → τ) (set : τ → σ → σ) : Prop where
  get_set : ∀ t s, get (set t s) = t
  set_get : ∀ s, set (get s) s = s
  set_set : ∀ t u s, set t (set u s) = set t s

namespace Task

variable {σ τ α β : Type}

/-- The result and the last state of a task that nobody interrupts. -/
def run : Task σ α → σ → Except Failure α × σ
  | .done result, s => (result, s)
  | .step change next, s => (next s).run (change s)
  | .lock next, s => next.run s
  | .unlock next, s => next.run s

def andThen (task : Task σ α) (f : α → Task σ β) : Task σ β :=
  match task with
  | .done (.ok a) => f a
  | .done (.error e) => .done (.error e)
  | .step change next => .step change fun s => (next s).andThen f
  | .lock next => .lock (next.andThen f)
  | .unlock next => .unlock (next.andThen f)

def attempt : Task σ α → Task σ (Except Failure α)
  | .done result => .done (.ok result)
  | .step change next => .step change fun s => (next s).attempt
  | .lock next => .lock next.attempt
  | .unlock next => .unlock next.attempt

def ofExcept (result : Except Failure α) : Task σ α :=
  .done result

instance : Monad (Task σ) where
  pure a := .done (.ok a)
  bind := andThen

instance : MonadStateOf σ (Task σ) where
  get := .step id fun s => .done (.ok s)
  set s := .step (fun _ => s) fun _ => .done (.ok ⟨⟩)
  modifyGet f := .step (fun s => (f s).2) fun s => .done (.ok (f s).1)

instance : MonadExceptOf Failure (Task σ) where
  throw e := .done (.error e)
  tryCatch task handle := task.attempt.andThen fun
    | .ok a => .done (.ok a)
    | .error e => handle e

/-- Does the steps of a task in a part of the state. -/
def within (get : σ → τ) (set : τ → σ → σ) (task : Task τ α)
    (isPart : IsPart get set := by exact ⟨fun _ _ => rfl, fun _ => rfl, fun _ _ _ => rfl⟩) :
    Task σ α :=
  match task with
  | .done result => .done result
  | .step change next =>
    .step (fun s => set (change (get s)) s) fun s => within get set (next (get s)) isPart
  | .lock next => .lock (within get set next isPart)
  | .unlock next => .unlock (within get set next isPart)

/-- Does a whole task in one step, from a state that is made for it. -/
def apart (enter : σ → τ) (leave : τ → σ → σ) (task : Task τ α) : Task σ α :=
  .step (fun s => leave (task.run (enter s)).2 s) fun s => .done (task.run (enter s)).1

/-- Gives the lock back at the end, whether the task fails or not. -/
def unlocking : Task σ α → Task σ α
  | .done result => .unlock (.done result)
  | .step change next => .step change fun s => (next s).unlocking
  | .lock next => .lock next.unlocking
  | .unlock next => .unlock next.unlocking

/-- A task that no other one that takes the lock runs beside. -/
def locked (task : Task σ α) : Task σ α :=
  .lock task.unlocking

end Task

end NPlusOne
