import NPlusOne.Program.Node
import NPlusOne.QueryType

namespace NPlusOne

namespace TranslationUnit

/-- The type behind all names for it; a type that names no other is its own. -/
def canonical (u : TranslationUnit) (t : CxxType) : CxxType :=
  match t.canonical with
  | some id => u.type id
  | none => t

def pointee (u : TranslationUnit) (t : CxxType) : CxxType :=
  match t.pointee with
  | some id => u.canonical (u.type id)
  | none => .invalid

def stripReferences (u : TranslationUnit) : (fuel : Nat) → CxxType → CxxType
  | 0, t => t
  | fuel + 1, t => if t.kind.isReference then u.stripReferences fuel (u.pointee t) else t

/-- Takes the pointers off a type, at most `fuel` of them, and counts them. -/
def stripPointers (u : TranslationUnit) : (fuel : Nat) → Int → CxxType → Int × CxxType
  | 0, depth, t => (depth, t)
  | fuel + 1, depth, t =>
    if t.kind = .pointer then u.stripPointers fuel (depth + 1) (u.pointee t) else (depth, t)

/-- No chain of pointees in a sound table is longer than the table. -/
def chainBound (u : TranslationUnit) : Nat :=
  u.types.size + 1

/-- The declaration of a type and its pointer depth, through all names and references. A type
without a declaration, such as a built-in one, has no identity. -/
def identity? (u : TranslationUnit) (t : CxxType) : Option QueryType :=
  if t.kind = .invalid then none
  else
    let plain := u.stripReferences u.chainBound (u.canonical t)
    let (depth, core) := u.stripPointers u.chainBound 0 plain
    match core.declaration with
    | none => none
    | some id =>
      match u.node? id with
      | none => none
      | some decl =>
        if decl.kind = .noDeclaration || decl.info.usr = "" then none
        else some ⟨decl.info.usr, depth, core.spelling⟩

end TranslationUnit

namespace Registry

def matchesType (r : Registry) (u : TranslationUnit) (t : CxxType) : Bool :=
  match u.identity? t with
  | some identity => r.contains identity
  | none => false

end Registry

end NPlusOne
