import NPlusOne.TypeIdentity
import NPlusOne.Value

namespace NPlusOne

namespace Node

mutual

def typeNames (scope : String) : Node → Except Failure (List (String × Node))
  | .mk id info children =>
    if info.kind.holdsTypes then
      let inner := if info.spelling ≠ "" && info.kind = .namespaceDecl
        then scope ++ info.spelling ++ "::" else scope
      match info.failure with
      | some reason => .error (.children reason)
      | none => typeNamesAll inner children
    else if info.kind.namesType && info.spelling ≠ "" then
      let name := scope ++ info.spelling
      let this := (name, Node.mk id info children)
      if info.kind.isRecord then
        match info.failure with
        | some reason => .error (.children reason)
        | none =>
          match typeNamesAll (name ++ "::") children with
          | .ok inner => .ok (this :: inner)
          | .error e => .error e
      else .ok [this]
    else .ok []

def typeNamesAll (scope : String) : List Node → Except Failure (List (String × Node))
  | [] => .ok []
  | n :: rest =>
    match typeNames scope n with
    | .error e => .error e
    | .ok these =>
      match typeNamesAll scope rest with
      | .error e => .error e
      | .ok those => .ok (these ++ those)

end

end Node

namespace TranslationUnit

/-- The named types of a unit; of equal names the first one counts. -/
def typeTable (u : TranslationUnit) : Except Failure (List (String × Node)) := do
  Node.typeNamesAll "" (← u.root.children)

def forwardSlashes (p : String) : String :=
  replaceText p "\\" "/"

/-- The unit includes, directly or not, a file whose path ends in the library's at a slash. -/
def includesLibrary (u : TranslationUnit) (library : String) : Bool :=
  let bare := String.ofList ((forwardSlashes library).toList.dropWhile (· = '/'))
  u.includes.any fun file =>
    let path := forwardSlashes (Path.normalize file)
    path.endsWith ("/" ++ bare) || path = bare

def lookup? (u : TranslationUnit) (library qualified : String) :
    Except Failure (Option QueryType) := do
  if !u.includesLibrary library then return none
  match (← u.typeTable).find? (·.1 = qualified) with
  | none => return none
  | some (_, decl) => return u.identity? (u.typeOf decl)

end TranslationUnit

namespace TypeLookup

/-- The pointer depth that the stars before a type name ask for, and the name. -/
def parseName (name : String) : Int × String :=
  let bare := name.toList.dropWhile (· = '*')
  (name.length - bare.length, String.ofList (Text.trim bare))

def typeName (v : Value) : Except Failure String :=
  match v.unfold with
  | .text name => .ok name
  | .list _ => .error .noMember
  | .tuple _ => .error .noMember
  | .set _ => .error .noMember
  | .map _ => .error .noMember
  | _ => .error .wrongKind

def libraryName : Value → Except Failure String
  | .text name => .ok name
  | .bytes _ => .error .wrongKind
  | .moment _ => .error .wrongKind
  | _ => .error .noMember

/-- Asks the units in their order; the first one that knows the type answers. -/
def search (library : Value) (depth : Int) (qualified : String) :
    List TranslationUnit → Except Failure (Option QueryType)
  | [] => .ok none
  | u :: rest => do
    match ← u.lookup? (← libraryName library) qualified with
    | some identity => return some { identity with depth := identity.depth + depth }
    | none => search library depth qualified rest

def lookup {σ : Type} [HasLog σ] (units : List TranslationUnit) (library type : Value) :
    Task σ (Option QueryType) := do
  let name ← Task.ofExcept (typeName type)
  let (depth, qualified) := parseName name
  match ← Task.ofExcept (search library depth qualified units) with
  | none => return none
  | some found =>
    let shown := library.display
    Log.write .debug .typeLookup s!"Resolved {name} from {shown}: {found.usr}"
    return some { found with name := name }

end TypeLookup

namespace Registry

/-- Looks a type up and adds it; a library that is not used adds nothing. -/
def register {σ : Type} [HasLog σ] (lookup : Value → Value → Task σ (Option QueryType))
    (r : Registry) (library type : Value) : Task σ (Option QueryType × Registry) := do
  if r.frozen then throw .frozenRegistry
  match ← lookup library type with
  | none => return (none, r)
  | some found =>
    let shown := library.display
    Log.write .debug .queryTypes s!"Registered query type {found.text} ({shown})"
    return (some found, r.add found)

def registerAll {σ : Type} [HasLog σ] (lookup : Value → Value → Task σ (Option QueryType)) :
    Registry → List (Value × Value) → Task σ Registry
  | r, [] => return r
  | r, (library, type) :: rest => do
    let (_, r) ← r.register lookup library type
    registerAll lookup r rest

def build {σ : Type} [HasLog σ] (lookup : Value → Value → Task σ (Option QueryType))
    (pairs : List (Value × Value)) : Task σ Registry := do
  let r ← registerAll lookup {} pairs
  let r := r.freeze
  Log.write .info .queryTypes s!"Query type registry built with {r.size} types"
  return r

def defaultPairs : List (Value × Value) :=
  QueryType.defaults.map fun p => (.text p.1, .text p.2)

end Registry

end NPlusOne
