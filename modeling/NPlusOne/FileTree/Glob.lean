import NPlusOne.FileTree.Resolve

namespace NPlusOne

namespace Glob

inductive Part where
  | any
  | one
  | char (c : Char)
  | set (negated : Bool) (ranges : List (Char × Char))
  deriving DecidableEq, Repr

/-- The ranges between brackets: `a-z` is a range, every other character stands for itself. -/
def ranges : List Char → List (Char × Char)
  | a :: '-' :: b :: rest => (a, b) :: ranges rest
  | a :: rest => (a, a) :: ranges rest
  | [] => []

/-- The text between brackets and what follows; a bracket that closes at once is part of the
text. -/
def bracket? (text : List Char) : Option (Bool × List Char × List Char) :=
  let (negated, body) := match text with
    | '!' :: rest => (true, rest)
    | _ => (false, text)
  let (opening, rest) := match body with
    | ']' :: rest => ([']'], rest)
    | _ => ([], body)
  let inner := rest.takeWhile (· ≠ ']')
  match rest.drop inner.length with
  | ']' :: after => some (negated, opening ++ inner, after)
  | _ => none

/-- The parts of a pattern. The counter bounds the steps by its length. -/
def parse : Nat → List Char → List Part
  | 0, _ => []
  | _ + 1, [] => []
  | n + 1, '*' :: rest => .any :: parse n rest
  | n + 1, '?' :: rest => .one :: parse n rest
  | n + 1, '[' :: rest =>
    match bracket? rest with
    | some (negated, body, after) => .set negated (ranges body) :: parse n after
    | none => .char '[' :: parse n rest
  | n + 1, c :: rest => .char c :: parse n rest

def Part.admits : Part → Char → Bool
  | .any, _ => true
  | .one, _ => true
  | .char d, c => c = d
  | .set negated ranges, c => (ranges.any fun r => r.1 ≤ c && c ≤ r.2) != negated

def follows : List Part → List Char → Bool
  | [], text => text.isEmpty
  | .any :: parts, [] => follows parts []
  | .any :: parts, c :: text => follows parts (c :: text) || follows (.any :: parts) text
  | _ :: _, [] => false
  | part :: parts, c :: text => part.admits c && follows parts text
termination_by parts text => (parts.length, text.length)

def hasMagic (p : String) : Bool :=
  p.toList.any fun c => c = '*' || c = '?' || c = '['

/-- A name matches a pattern; names that begin with a dot are hidden from patterns that do not. -/
def matchesName (pattern name : String) : Bool :=
  (pattern.startsWith "." || !name.startsWith ".") &&
    follows (parse pattern.length pattern.toList) name.toList

/-- The text of a path up to its last slash, without that slash unless it is the root, and the
rest. -/
def split (p : String) : String × String :=
  let base := (p.toList.reverse.takeWhile (· ≠ '/')).reverse
  (Path.directory p, String.ofList base)

end Glob

namespace FileTree

def listing (t : FileTree) (p : String) : List String :=
  match t.look (if p = "" then "." else p) with
  | .ok (names, .directory) => t.names names
  | _ => []

/-- The paths that match a pattern, piece by piece; a pattern never crosses a slash. -/
def globFuel (t : FileTree) : Nat → (directories : Bool) → String → List String
  | 0, _, _ => []
  | fuel + 1, directories, pattern =>
    let (dir, base) := Glob.split pattern
    if !Glob.hasMagic pattern then
      if base ≠ "" then if t.containsLink pattern then [pattern] else []
      else if t.holdsDirectory dir then [pattern] else []
    else
      let dirs := if dir ≠ "" && dir ≠ pattern && Glob.hasMagic dir then t.globFuel fuel true dir
        else [dir]
      dirs.flatMap fun d =>
        let found :=
          if Glob.hasMagic base then
            (t.listing d).filter fun name => Glob.matchesName base name &&
              (!directories || t.holdsDirectory (Path.join d name))
          else if base = "" then if t.holdsDirectory d then [""] else []
          else if t.containsLink (Path.join d base) then [base] else []
        found.map (Path.join d)

def glob (t : FileTree) (pattern : String) : List String :=
  t.globFuel (pattern.length + 1) false pattern

def below (t : FileTree) (dir : List String) : List (List String) :=
  (t.entries.map Prod.fst).filter fun names => dir.isPrefixOf names && names ≠ dir

end FileTree

def sortUnique (texts : List String) : List String :=
  (texts.mergeSort fun a b => decide (a ≤ b)).eraseDups

def sourceEndings : List String :=
  [".cpp", ".cc", ".cxx", ".c"]

namespace FileTree

/-- The entries below a directory whose names end like those of source files, as paths without
links, in increasing order. Where there is no directory there are none. -/
def sourceFiles (t : FileTree) (dir : String) : Except Failure (List String) := do
  let dir := Path.tidy dir
  if !(← t.isDirectory dir) then return []
  match t.look dir with
  | .error _ => return []
  | .ok (names, _) =>
    let inside := t.below names
    let found := sourceEndings.flatMap fun ending =>
      inside.filter fun entry => (entry.getLast?.getD "").endsWith ending
    return sortUnique (← found.mapM fun entry => t.resolve (pathText entry))

end FileTree

end NPlusOne
