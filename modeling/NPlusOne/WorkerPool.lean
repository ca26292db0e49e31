import NPlusOne.Task

namespace NPlusOne

inductive Turn where
  /-- A job does at most so many steps. -/
  | work (job steps : Nat)
  | collect
  deriving DecidableEq, Repr

/-- Each job may do a thousand steps before the next one gets its turn. -/
def Turn.slices (jobs : Nat) : List Turn :=
  let round := (List.range jobs).flatMap fun job => [.work job 1000, .collect]
  (List.replicate 100 round).flatten

def Task.isDone {σ α : Type} : Task σ α → Bool
  | .done _ => true
  | _ => false

/-- Jobs that share a state and their workers, in the order in which they are begun. -/
structure WorkerPool (σ β : Type) where
  jobs : List (Task σ β)
  state : σ
  begun : Nat := 0
  isOpen : Bool := true
  holder : Option Nat := none

namespace WorkerPool

variable {σ β : Type}

def hasFailed : List (Task σ β) → Bool
  | .done (.ok _) :: rest => hasFailed rest
  | .done (.error _) :: _ => true
  | _ => false

/-- Begins the job if it is the next one and there is a worker for it beside the busy ones. -/
def begin (room : Nat → Bool) (job : Nat) (p : WorkerPool σ β) : WorkerPool σ β :=
  if job = p.begun && p.isOpen && room ((p.jobs.take p.begun).countP (!·.isDone))
  then { p with begun := job + 1 } else p

/-- The next step of a job. One that takes the lock waits while another job has it. -/
def step (job : Nat) (p : WorkerPool σ β) : Option (WorkerPool σ β) :=
  match p.jobs[job]? with
  | some (.step change next) =>
    some { p with jobs := p.jobs.set job (next p.state), state := change p.state }
  | some (.lock next) =>
    if p.holder.isNone then some { p with jobs := p.jobs.set job next, holder := some job }
    else none
  | some (.unlock next) => some { p with jobs := p.jobs.set job next, holder := none }
  | _ => none

def steps (job : Nat) : Nat → WorkerPool σ β → WorkerPool σ β
  | 0, p => p
  | n + 1, p =>
    match p.step job with
    | some p => steps job n p
    | none => p

/-- After a failure that was met no other job is begun. -/
def turn (room : Nat → Bool) (p : WorkerPool σ β) : Turn → WorkerPool σ β
  | .work job n =>
    let p := p.begin room job
    if job < p.begun then p.steps job n else p
  | .collect => { p with isOpen := p.isOpen && !hasFailed p.jobs }

def complete (job : Nat) (p : WorkerPool σ β) : WorkerPool σ β :=
  match p.jobs[job]? with
  | some task =>
    { p with jobs := p.jobs.set job (.done (task.run p.state).1), state := (task.run p.state).2 }
  | none => p

/-- The results of jobs in their order, each of which is waited for. After a failure only those that
were begun are completed. -/
def gather : Nat → List (Task σ β) → σ → Except Failure (List β) × σ
  | _, [], s => (.ok [], s)
  | begun, job :: rest, s =>
    match job.run s with
    | (.ok b, s) =>
      let (results, s) := gather (begun - 1) rest s
      (results.map (b :: ·), s)
    | (.error e, s) => (.error e, (rest.take (begun - 1)).foldl (fun s job => (job.run s).2) s)

/-- Works off jobs by turns and gives their results. What is left after the turns is done by one job
after the other, first of all by the one that holds the lock. -/
def run (room : Nat → Bool) (turns : List Turn) (jobs : List (Task σ β)) (s : σ) :
    Except Failure (List β) × σ :=
  let p := turns.foldl (turn room) { jobs, state := s }
  let p := match p.holder with
    | some job => p.complete job
    | none => p
  gather p.begun p.jobs p.state

end WorkerPool

namespace Task

variable {σ β : Type}

def inTurn : List (Task σ β) → Task σ (List β)
  | [] => return []
  | job :: rest => return (← job) :: (← inTurn rest)

/-- Hands jobs to workers and waits for their results. -/
def pooled (room : Nat → Bool) (turns : List Turn) (jobs : List (Task σ β)) : Task σ (List β) :=
  .step (fun s => (WorkerPool.run room turns jobs s).2)
    fun s => .done (WorkerPool.run room turns jobs s).1

end Task

end NPlusOne
