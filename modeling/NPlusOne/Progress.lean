import NPlusOne.Double.Format
import NPlusOne.Failure
import NPlusOne.Path

namespace NPlusOne

/-- How many of the files are done. Every `interval`-th file and the last one are told. -/
structure Progress where
  total : Int
  interval : Int := 10
  files : Nat := 0
  loops : Int := 0
  deriving Repr

/-- What a clock shows, in seconds. -/
inductive Reading where
  | whole (seconds : Int)
  | exact (seconds : Double)
  deriving DecidableEq, Repr

def Reading.double : Reading → Except Failure Double
  | .whole n => match Double.ofInt? n with
    | some x => .ok x
    | none => .error .numberTooLarge
  | .exact x => .ok x

namespace Progress

/-- Files that are done, in percent of all; of no files all are done. -/
def percent (p : Progress) : Double :=
  if p.total = 0 then .ofInt 100
  else (Double.ofFraction (p.total < 0) p.files p.total.natAbs).mul (.ofInt 100)

/-- The last file is told, and every one whose number the interval divides. -/
def isDue (p : Progress) : Bool :=
  p.files % (max 1 p.interval).toNat = 0 || p.files = p.total

/-- Counts a file and its loops; gives the line to tell, if one is due. -/
def update (p : Progress) (path : String) (loops : Int) : Progress × Option String :=
  let p := { p with files := p.files + 1, loops := p.loops + loops }
  let percent := p.percent.fixed 1
  let name := Path.name path
  let line := s!"Progress: {p.files}/{p.total} files ({percent}%), {p.loops} loops - {name}"
  (p, if p.isDue then some line else none)

/-- The seconds between two readings of a clock. Whole readings are subtracted exactly. -/
def elapsed (start now : Reading) : Except Failure Double := do
  match start, now with
  | .whole a, .whole b => Reading.double (.whole (b - a))
  | _, _ => return (← now.double).sub (← start.double)

def summary (p : Progress) (elapsed : Double) : String :=
  let seconds := elapsed.fixed 2
  s!"Analyzed {p.files} files and {p.loops} loops in {seconds}s"

end Progress

end NPlusOne
