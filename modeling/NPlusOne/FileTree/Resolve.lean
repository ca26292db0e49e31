import NPlusOne.FileTree

namespace NPlusOne

namespace FileTree

/-- The links met so far, by their paths: those being followed have no result yet. -/
abbrev SeenLinks := List (String × Option String)

/-- A path without links. If a link led back to itself, the path is not complete: the rest of it was
left as it stood. -/
structure RealPath where
  path : String
  complete : Bool
  seen : SeenLinks

/-- The path one step up, worked out on the text; a relative path may begin with steps up. -/
def stepUp (path : String) : String :=
  if path = "" then ".."
  else if (Path.pieces path).getLast? = some ".." then
    Path.join (Path.join (Path.directory path) "..") ".."
  else Path.directory path

/-- Works off the pieces of a path behind `path`; `follow` resolves the target of a link. Names that
do not exist are kept. -/
def realPieces (t : FileTree) (follow : SeenLinks → String → String → Except Failure RealPath) :
    SeenLinks → String → List String → Except Failure RealPath
  | seen, path, [] => .ok ⟨path, true, seen⟩
  | seen, path, piece :: rest =>
    if piece = "" || piece = "." then t.realPieces follow seen path rest
    else if piece = ".." then t.realPieces follow seen (stepUp path) rest
    else
      let next := Path.join path piece
      let left := "/".intercalate rest
      match checkPath next, t.linkAt? next with
      | .error e, _ => .error e
      | .ok (), none => t.realPieces follow seen next rest
      | .ok (), some target =>
        match seen.lookup next with
        | some (some real) => t.realPieces follow seen real rest
        | some none => .ok ⟨Path.join next left, false, seen⟩
        | none => do
          let real ← follow ((next, none) :: seen) path target
          if real.complete then
            t.realPieces follow ((next, some real.path) :: real.seen) real.path rest
          else return { real with path := Path.join real.path left }

/-- How many links are followed inside each other. -/
def maxNesting : Nat := 1000

/-- Resolves a path that is seen from `path`, with so many links inside each other. -/
def realFrom (t : FileTree) : Nat → SeenLinks → String → String → Except Failure RealPath
  | 0, _, _, _ => .error .tooDeep
  | depth + 1, seen, path, rest =>
    let path := if Path.isAbsolute rest then "/" else path
    t.realPieces (t.realFrom depth) seen path (Path.pieces rest)

/-- The path without links. What does not exist is kept; a link that leads back to itself is
refused. -/
def resolve (t : FileTree) (p : String) : Except Failure String := do
  let real ← t.realFrom maxNesting [] "" (Path.tidy p)
  let path := t.absolute real.path
  checkPath path
  match t.look path with
  | .error .tooManyLinks => throw (.linkLoop (Text.quote path))
  | _ => return path

end FileTree

end NPlusOne
