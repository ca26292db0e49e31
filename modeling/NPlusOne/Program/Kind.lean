namespace NPlusOne

/-- What a node of a syntax tree is; only the kinds that the analysis tells apart have a
constructor of their own. -/
inductive NodeKind where
  | namespaceDecl
  | linkageSpec
  | unexposedDecl
  | classDecl
  | structDecl
  | unionDecl
  | classTemplate
  | typedefDecl
  | typeAliasDecl
  | functionDecl
  | method
  | constructorDecl
  | destructorDecl
  | functionTemplate
  | forLoop
  | rangeForLoop
  | whileLoop
  | doLoop
  | declRef
  | memberRef
  | call
  | unexposedExpr
  | paren
  | noDeclaration
  | other (name : String)
  deriving DecidableEq, Repr

namespace NodeKind

def name : NodeKind → String
  | namespaceDecl => "NAMESPACE"
  | linkageSpec => "LINKAGE_SPEC"
  | unexposedDecl => "UNEXPOSED_DECL"
  | classDecl => "CLASS_DECL"
  | structDecl => "STRUCT_DECL"
  | unionDecl => "UNION_DECL"
  | classTemplate => "CLASS_TEMPLATE"
  | typedefDecl => "TYPEDEF_DECL"
  | typeAliasDecl => "TYPE_ALIAS_DECL"
  | functionDecl => "FUNCTION_DECL"
  | method => "CXX_METHOD"
  | constructorDecl => "CONSTRUCTOR"
  | destructorDecl => "DESTRUCTOR"
  | functionTemplate => "FUNCTION_TEMPLATE"
  | forLoop => "FOR_STMT"
  | rangeForLoop => "CXX_FOR_RANGE_STMT"
  | whileLoop => "WHILE_STMT"
  | doLoop => "DO_STMT"
  | declRef => "DECL_REF_EXPR"
  | memberRef => "MEMBER_REF_EXPR"
  | call => "CALL_EXPR"
  | unexposedExpr => "UNEXPOSED_EXPR"
  | paren => "PAREN_EXPR"
  | noDeclaration => "NO_DECL_FOUND"
  | other name => name

/-- The kinds that have a constructor of their own. -/
def known : List NodeKind :=
  [namespaceDecl, linkageSpec, unexposedDecl, classDecl, structDecl, unionDecl, classTemplate,
    typedefDecl, typeAliasDecl, functionDecl, method, constructorDecl, destructorDecl,
    functionTemplate, forLoop, rangeForLoop, whileLoop, doLoop, declRef, memberRef, call,
    unexposedExpr, paren, noDeclaration]

def ofName (name : String) : NodeKind :=
  (known.find? (·.name = name)).getD (other name)

def isLoop : NodeKind → Bool
  | forLoop | rangeForLoop | whileLoop | doLoop => true
  | _ => false

def isFunction : NodeKind → Bool
  | functionDecl | method | constructorDecl | destructorDecl | functionTemplate => true
  | _ => false

def isCallable : NodeKind → Bool
  | functionDecl | method | functionTemplate => true
  | _ => false

def isIdentifier : NodeKind → Bool
  | declRef | memberRef => true
  | _ => false

def isWrapper : NodeKind → Bool
  | unexposedExpr | paren => true
  | _ => false

def holdsDefinitions : NodeKind → Bool
  | namespaceDecl | linkageSpec | unexposedDecl | classDecl | structDecl | classTemplate => true
  | _ => false

/-- The declarations inside which types are named, other than records. -/
def holdsTypes : NodeKind → Bool
  | namespaceDecl | linkageSpec | unexposedDecl => true
  | _ => false

def isRecord : NodeKind → Bool
  | structDecl | classDecl | unionDecl => true
  | _ => false

def namesType : NodeKind → Bool
  | structDecl | classDecl | unionDecl | typedefDecl | typeAliasDecl => true
  | _ => false

end NodeKind

inductive TypeKind where
  | invalid
  | pointer
  | lvalueReference
  | rvalueReference
  | other (name : String)
  deriving DecidableEq, Repr

namespace TypeKind

def name : TypeKind → String
  | invalid => "INVALID"
  | pointer => "POINTER"
  | lvalueReference => "LVALUEREFERENCE"
  | rvalueReference => "RVALUEREFERENCE"
  | other name => name

def ofName (name : String) : TypeKind :=
  ([invalid, pointer, lvalueReference, rvalueReference].find? (·.name = name)).getD (other name)

def isReference : TypeKind → Bool
  | lvalueReference | rvalueReference => true
  | _ => false

end TypeKind

end NPlusOne
