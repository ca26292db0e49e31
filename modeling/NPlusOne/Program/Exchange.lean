import NPlusOne.FrontEnd

namespace NPlusOne

namespace Exchange

def member? (v : Value) (key : String) : Option Value :=
  match v with
  | .map entries => Value.find? key entries
  | _ => none

def items : Option Value → List Value
  | some (.list items) => items
  | _ => []

def text? : Option Value → Option String
  | some (.text s) => some s
  | _ => none

def index? : Option Value → Option Nat
  | some (.int n) => if n < 0 then none else some n.toNat
  | _ => none

def place? (files : Array String) : Option Value → Option Place
  | some (.list [.int file, .int line, .int column, .int offset]) =>
    files[file.toNat]?.map fun name => ⟨name, line, column, offset⟩
  | _ => none

def nodeInfo (files : Array String) (v : Value) : NodeInfo where
  kind := .ofName ((text? (member? v "k")).getD "")
  spelling := (text? (member? v "s")).getD ""
  place := place? files (member? v "l")
  referenced := index? (member? v "r")
  definition := index? (member? v "d")
  usr := (text? (member? v "u")).getD ""
  isDefinition := ((member? v "x").getD .null).isTruthy
  type := index? (member? v "t")
  failure := text? (member? v "e")

/-- A node as it is listed: what is said about it and the numbers of its children. -/
structure RawNode where
  info : NodeInfo
  children : List Nat

def rawNode (files : Array String) (v : Value) : RawNode :=
  ⟨nodeInfo files v, (items (member? v "c")).filterMap fun c => index? (some c)⟩

/-- The tree below a listed node, at most `depth` levels of it. -/
def tree (raw : Array RawNode) : (depth : Nat) → Nat → Option Node
  | 0, _ => none
  | depth + 1, id =>
    raw[id]?.map fun node => .mk id node.info (node.children.filterMap (tree raw depth))

def cxxType (v : Value) : CxxType where
  kind := .ofName ((text? (member? v "k")).getD "")
  spelling := (text? (member? v "s")).getD ""
  canonical := index? (member? v "c")
  pointee := index? (member? v "p")
  declaration := index? (member? v "d")

def diagnostic? : Value → Option Diagnostic
  | .list [.int severity, .text text] => some ⟨severity, text⟩
  | _ => none

def unit (v : Value) : TranslationUnit :=
  let files := ((items (member? v "files")).filterMap (text? ∘ some)).toArray
  let raw := ((items (member? v "nodes")).map (rawNode files)).toArray
  { nodes := ((List.range raw.size).filterMap (tree raw raw.size)).toArray
    types := ((items (member? v "types")).map cxxType).toArray
    includes := (items (member? v "includes")).filterMap (text? ∘ some)
    diagnostics := (items (member? v "diags")).filterMap diagnostic? }

def outcome : Value → ParseOutcome
  | .map entries => .unit (unit (.map entries))
  | .text "none" => .nothing
  | _ => .rejected

def outcomes : Value → List ParseOutcome
  | .list items => items.map outcome
  | v => [outcome v]

/-- The program whose units stand under `units`, by path. Whatever is missing or of an unexpected
form is taken as not said. -/
def program (v : Value) : Program :=
  match member? v "units" with
  | some (.map entries) => ⟨entries.map fun (path, entry) => (path.display, outcomes entry)⟩
  | _ => {}

end Exchange

end NPlusOne
