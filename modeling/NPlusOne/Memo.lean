import NPlusOne.Log
import NPlusOne.Program.Node

namespace NPlusOne

/-- The place of a function definition, by which it is recognised in whatever unit it was parsed. -/
structure DeclarationId where
  file : String
  offset : Int
  deriving DecidableEq, Repr

namespace DeclarationId

def text (d : DeclarationId) : String :=
  d.file ++ "@" ++ toString d.offset

/-- The id of a definition; one that lies in no file has none. -/
def of (n : Node) : Except Failure DeclarationId :=
  match n.info.place with
  | some place => .ok ⟨Path.normalize place.file, place.offset⟩
  | none => .error (.unlocated n.spelling)

end DeclarationId

inductive VisitState where
  | unvisited
  | inProgress
  | resolved
  deriving DecidableEq, Repr

namespace Memo

variable {β : Type}

def find (d : DeclarationId) : List (DeclarationId × β) → Option β
  | [] => none
  | (e, b) :: rest => if e = d then some b else find d rest

/-- Enters a value for `d`, in its old position or at the end. -/
def put (d : DeclarationId) (b : β) : List (DeclarationId × β) → List (DeclarationId × β)
  | [] => [(d, b)]
  | (e, c) :: rest => if e = d then (d, b) :: rest else (e, c) :: put d b rest

theorem find_put (d e : DeclarationId) (b : β) (entries : List (DeclarationId × β)) :
    find e (put d b entries) = if d = e then some b else find e entries := by
  induction entries with
  | nil => simp [put, find]
  | cons p rest ih =>
    obtain ⟨f, c⟩ := p
    by_cases hf : f = d
    · subst hf
      by_cases he : f = e <;> simp [put, find, he]
    · by_cases he : f = e
      · subst he
        simp [put, find, hf, Ne.symm hf]
      · simp [put, find, hf, he, ih]

theorem length_put (d : DeclarationId) (b : β) (entries : List (DeclarationId × β)) :
    (put d b entries).length = entries.length + if (find d entries).isSome then 0 else 1 := by
  induction entries with
  | nil => rfl
  | cons p rest ih =>
    obtain ⟨e, c⟩ := p
    by_cases he : e = d
    · simp [put, find, he]
    · simp only [put, find, he, ↓reduceIte, List.length_cons, ih]
      omega

theorem find_nil_ne : ∀ d, find d ([] : List (DeclarationId × VisitState)) ≠ some .unvisited := by
  intro _ h
  cases h

theorem find_nil_iff : ∀ d, find d ([] : List (DeclarationId × VisitState)) = some .resolved ↔
    (find d ([] : List (DeclarationId × Bool))).isSome = true := by
  simp [find]

end Memo

/-- What a run knows about the functions it has met: how far each has come, and the verdicts. -/
structure Memo where
  states : List (DeclarationId × VisitState) := []
  verdicts : List (DeclarationId × Bool) := []
  /-- Only functions that were met are listed. -/
  visited : ∀ d, Memo.find d states ≠ some .unvisited := by exact Memo.find_nil_ne
  /-- The functions with a verdict are the resolved ones. -/
  settled : ∀ d, Memo.find d states = some .resolved ↔ (Memo.find d verdicts).isSome = true := by
    exact Memo.find_nil_iff

namespace Memo

def stateOf (m : Memo) (d : DeclarationId) : VisitState :=
  (find d m.states).getD .unvisited

/-- Marks the start of a traversal; answers whether `d` was unvisited until now. -/
def begin (m : Memo) (d : DeclarationId) : Bool × Memo :=
  if h : find d m.states = none then
    (true, { m with
      states := put d .inProgress m.states
      visited := fun e => by
        rw [find_put]
        split
        · simp
        · exact m.visited e
      settled := fun e => by
        rw [← m.settled e, find_put]
        split
        next heq => simp [← heq, h]
        next => rfl })
  else (false, m)

/-- Records a verdict; the last one counts. -/
def record (m : Memo) (d : DeclarationId) (verdict : Bool) : Memo where
  states := put d .resolved m.states
  verdicts := put d verdict m.verdicts
  visited e := by
    rw [find_put]
    split
    · simp
    · exact m.visited e
  settled e := by
    rw [find_put, find_put]
    split
    · simp
    · exact m.settled e

def hasVerdict (m : Memo) (d : DeclarationId) : Bool :=
  (find d m.verdicts).isSome

/-- The recorded verdict; a function without one counts as not reaching a query. -/
def verdictOf (m : Memo) (d : DeclarationId) : Bool :=
  (find d m.verdicts).getD false

def size (m : Memo) : Nat :=
  m.states.length

def beginVisit {σ : Type} [HasLog σ] (memo : σ → Memo) (keep : Memo → σ → σ) (d : DeclarationId) :
    Task σ Bool := do
  let fresh ← modifyGet fun s => (((memo s).begin d).1, keep ((memo s).begin d).2 s)
  if fresh then Log.write .debug .memo s!"Begin traversal: {d.text}"
  return fresh

end Memo

end NPlusOne
