import NPlusOne.Program.Kind
import NPlusOne.Failure
import NPlusOne.Path

namespace NPlusOne

structure Place where
  file : String
  line : Int
  column : Int
  offset : Int
  deriving DecidableEq, Repr

/-- What the front end says about one node. Other nodes of the unit and its types are named by
their numbers. -/
structure NodeInfo where
  kind : NodeKind
  spelling : String := ""
  place : Option Place := none
  referenced : Option Nat := none
  definition : Option Nat := none
  usr : String := ""
  isDefinition : Bool := false
  type : Option Nat := none
  /-- The front end fails with this text when it is asked for the children. -/
  failure : Option String := none
  deriving DecidableEq, Repr

/-- A syntax tree: the number of its root in the unit, what is known about it, its children. -/
inductive Node where
  | mk (id : Nat) (info : NodeInfo) (children : List Node)
  deriving Repr

namespace Node

def id : Node → Nat
  | mk id _ _ => id

def info : Node → NodeInfo
  | mk _ info _ => info

def subtrees : Node → List Node
  | mk _ _ children => children

def kind (n : Node) : NodeKind := n.info.kind

def spelling (n : Node) : String := n.info.spelling

def file? (n : Node) : Option String :=
  n.info.place.map fun place => Path.normalize place.file

def children (n : Node) : Except Failure (List Node) :=
  match n.info.failure with
  | some reason => .error (.children reason)
  | none => .ok n.subtrees

def isFunctionDefinition (n : Node) : Bool :=
  n.kind.isFunction && n.info.isDefinition

mutual

def size : Node → Nat
  | mk _ _ children => sizeList children + 1

def sizeList : List Node → Nat
  | [] => 0
  | n :: rest => size n + sizeList rest

end

theorem sizeList_append (xs ys : List Node) : sizeList (xs ++ ys) = sizeList xs + sizeList ys := by
  induction xs with
  | nil => simp [sizeList]
  | cons n rest ih => simp [sizeList, ih, Nat.add_assoc]

theorem size_eq (n : Node) : n.size = sizeList n.subtrees + 1 := by
  cases n with
  | mk _ _ children => simp [size, subtrees]

theorem subtrees_of_children {n : Node} {ns : List Node} (h : n.children = .ok ns) :
    ns = n.subtrees := by
  unfold children at h
  split at h
  · simp at h
  · simpa using h.symm

end Node

/-- A type of a unit; the canonical type and the pointee are named by their numbers. -/
structure CxxType where
  kind : TypeKind
  spelling : String := ""
  canonical : Option Nat := none
  pointee : Option Nat := none
  declaration : Option Nat := none
  deriving DecidableEq, Repr

def CxxType.invalid : CxxType := { kind := .invalid }

structure Diagnostic where
  severity : Int
  text : String
  deriving DecidableEq, Repr

def Diagnostic.error : Int := 3

/-- A parsed source file: its syntax tree, each of its nodes by number, its types, the files that
it includes and the front end's diagnostics. -/
structure TranslationUnit where
  nodes : Array Node
  types : Array CxxType := #[]
  includes : List String := []
  diagnostics : List Diagnostic := []
  deriving Repr

namespace TranslationUnit

def node? (u : TranslationUnit) (id : Nat) : Option Node :=
  u.nodes[id]?

def root (u : TranslationUnit) : Node :=
  u.nodes[0]?.getD (.mk 0 { kind := .other "TRANSLATION_UNIT" } [])

def type (u : TranslationUnit) (id : Nat) : CxxType :=
  u.types[id]?.getD .invalid

/-- The type of a node; a node without one has an invalid type. -/
def typeOf (u : TranslationUnit) (n : Node) : CxxType :=
  match n.info.type with
  | some id => u.type id
  | none => .invalid

end TranslationUnit

/-- A node together with the unit that it belongs to. -/
structure Cursor where
  unit : TranslationUnit
  node : Node
  deriving Repr

namespace Cursor

def referenced? (c : Cursor) : Option Cursor := do
  let id ← c.node.info.referenced
  let node ← c.unit.node? id
  return ⟨c.unit, node⟩

def definition? (c : Cursor) : Option Cursor := do
  let id ← c.node.info.definition
  let node ← c.unit.node? id
  return ⟨c.unit, node⟩

end Cursor

end NPlusOne
