import NPlusOne.Text

namespace NPlusOne

namespace Path

/-- The pieces between the slashes; an empty piece stands before, after and between slashes. -/
def pieces (p : String) : List String :=
  (Text.splitOn '/' p.toList).map String.ofList

/-- The slashes that make the root: exactly two count as two, three or more as one. -/
def rootSlashes (p : String) : Nat :=
  match p.toList with
  | '/' :: '/' :: '/' :: _ => 1
  | '/' :: '/' :: _ => 2
  | '/' :: _ => 1
  | _ => 0

def isAbsolute (p : String) : Bool :=
  0 < rootSlashes p

def root (p : String) : String :=
  String.ofList (List.replicate (rootSlashes p) '/')

/-- Adds a piece to the reversed list of kept pieces: `..` removes the piece before it, stays at
the front of a relative path and vanishes at the root. -/
def pushPiece (rooted : Bool) (kept : List String) (piece : String) : List String :=
  if piece = "" || piece = "." then kept
  else if piece = ".." then
    match kept with
    | [] => if rooted then [] else [".."]
    | last :: rest => if last = ".." then ".." :: last :: rest else rest
  else piece :: kept

/-- The pieces that are left when `.` and `..` have been worked out on the text alone. -/
def components (p : String) : List String :=
  ((pieces p).foldl (pushPiece (isAbsolute p)) []).reverse

/-- A path from its root and pieces; with neither it is the current directory. -/
def assemble (root : String) (parts : List String) : String :=
  let text := root ++ "/".intercalate parts
  if text = "" then "." else text

def normalize (p : String) : String :=
  assemble (root p) (components p)

def join (base p : String) : String :=
  if isAbsolute p || base = "" then p
  else if base.endsWith "/" then base ++ p
  else base ++ "/" ++ p

def absolute (cwd p : String) : String :=
  normalize (join cwd p)

/-- The pieces of a path without empty pieces and `.`; a `..` stays. -/
def steps (p : String) : List String :=
  (pieces p).filter fun piece => piece ≠ "" && piece ≠ "."

/-- The path with doubled slashes and `.` taken out; a `..` stays, since it may cross a link. -/
def tidy (p : String) : String :=
  assemble (root p) (steps p)

/-- `p` below `base`, tidied; an absolute `p` stands for itself. -/
def below (base p : String) : String :=
  if isAbsolute p then tidy p else assemble (root base) (steps base ++ steps p)

/-- The path without its last step; the root and the current directory are their own parents. -/
def parent (p : String) : String :=
  assemble (root p) (steps p).dropLast

def name (p : String) : String :=
  (steps p).getLast?.getD ""

/-- The text before the last slash; its own trailing slashes go unless there is nothing else. -/
def directory (p : String) : String :=
  let head := (p.toList.reverse.dropWhile (· ≠ '/')).reverse
  let bare := (head.reverse.dropWhile (· = '/')).reverse
  String.ofList (if bare.isEmpty then head else bare)

end Path

end NPlusOne
