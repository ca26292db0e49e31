import NPlusOne.Failure

namespace NPlusOne

/-- A time of day, with the distance from universal time in minutes if it is given. -/
structure ClockTime where
  hour : Nat
  minute : Nat
  second : Nat
  micro : Nat
  zone : Option Int
  deriving DecidableEq, Repr

structure Moment where
  year : Nat
  month : Nat
  day : Nat
  time : Option ClockTime := none
  deriving DecidableEq, Repr

namespace Moment

def number (digits : List Char) : Nat :=
  digits.foldl (fun n c => n * 10 + (c.toNat - 48)) 0

/-- Between `least` and `most` digits at the start of a text, as many as there are. -/
def digits? (least most : Nat) (text : List Char) : Option (List Char × List Char) :=
  let found := (text.take most).takeWhile Char.isDigit
  if least ≤ found.length then some (found, text.drop found.length) else none

def char? (c : Char) : List Char → Option (List Char)
  | d :: rest => if c = d then some rest else none
  | [] => none

/-- A distance from universal time: `Z`, or a sign, hours and perhaps minutes. -/
def zone? (text : List Char) : Option Int :=
  match text with
  | ['Z'] => some 0
  | sign :: rest => do
    if sign ≠ '-' && sign ≠ '+' then none
    let (hours, rest) ← digits? 1 2 rest
    let minutes ← if rest.isEmpty then some [] else do
      let (minutes, rest) ← digits? 2 2 (← char? ':' rest)
      if rest.isEmpty then some minutes else none
    let distance : Int := number hours * 60 + number minutes
    return if sign = '-' then -distance else distance
  | [] => none

/-- The first six digits behind the point, filled up with zeros. -/
def microseconds (digits : List Char) : Nat :=
  number ((digits ++ List.replicate 6 '0').take 6)

def clock? (text : List Char) : Option ClockTime := do
  let (hour, rest) ← digits? 1 2 text
  let (minute, rest) ← digits? 2 2 (← char? ':' rest)
  let (second, rest) ← digits? 2 2 (← char? ':' rest)
  let (micro, rest) := match rest with
    | '.' :: rest => rest.span Char.isDigit
    | _ => ([], rest)
  let blanks := rest.takeWhile fun c => c = ' ' || c = '\t'
  let zone ← if rest.isEmpty then some none else (zone? (rest.drop blanks.length)).map some
  return ⟨number hour, number minute, number second, microseconds micro, zone⟩

/-- What stands between a date and a time: the letter T, or blanks. -/
def gap? : List Char → Option (List Char)
  | 'T' :: rest => some rest
  | 't' :: rest => some rest
  | c :: rest =>
    if c = ' ' || c = '\t' then some (rest.dropWhile fun d => d = ' ' || d = '\t') else none
  | [] => none

def read? (text : List Char) : Option Moment := do
  let (year, rest) ← digits? 4 4 text
  let (month, rest) ← digits? 1 2 (← char? '-' rest)
  let (day, rest) ← digits? 1 2 (← char? '-' rest)
  let time ← if rest.isEmpty then some none else (clock? (← gap? rest)).map some
  return ⟨number year, number month, number day, time⟩

/-- A text that stands for a moment by itself; a date alone has all its digits. -/
def isWritten (text : List Char) : Bool :=
  match read? text with
  | some m => m.time.isSome || text.length = 10
  | none => false

def isLeap (year : Nat) : Bool :=
  year % 4 = 0 && (year % 100 ≠ 0 || year % 400 = 0)

def daysIn (year month : Nat) : Nat :=
  if month = 2 then if isLeap year then 29 else 28
  else if month = 4 || month = 6 || month = 9 || month = 11 then 30
  else 31

/-- The days before the first of March of the year zero are not counted; a year begins in March. -/
def dayNumber (year month day : Nat) : Int :=
  let y : Int := if month < 3 then (year : Int) - 1 else year
  let m : Int := ((month : Int) + 9) % 12
  365 * y + y / 4 - y / 100 + y / 400 + (153 * m + 2) / 5 + day - 1

def instant (m : Moment) (t : ClockTime) : Int :=
  let minutes := (dayNumber m.year m.month m.day * 24 + t.hour) * 60 + t.minute - t.zone.getD 0
  (minutes * 60 + t.second) * 1000000 + t.micro

/-- Equality of moments. Of two with a known distance from universal time the instants count. -/
def same (a b : Moment) : Bool :=
  match a.time, b.time with
  | some t, some u =>
    if t.zone.isSome && u.zone.isSome then a.instant t = b.instant u else a = b
  | _, _ => a = b

def spanText (minutes : Int) : String :=
  let days := minutes.fdiv 1440
  let seconds := (minutes.fmod 1440) * 60
  let parts := (if days = 0 then [] else [s!"days={days}"]) ++
    (if seconds = 0 then [] else [s!"seconds={seconds}"])
  "datetime.timedelta(" ++ (if parts.isEmpty then "0" else ", ".intercalate parts) ++ ")"

def zoneProblem (minutes : Int) : Option String :=
  if minutes.natAbs < 1440 then none
  else
    let span := spanText minutes
    some ("offset must be a timedelta strictly between -timedelta(hours=24) and " ++
      s!"timedelta(hours=24), not {span}.")

def problem? (m : Moment) : Option String :=
  let zone := m.time.bind (·.zone) |>.bind zoneProblem
  let date :=
    if m.year = 0 then some s!"year {m.year} is out of range"
    else if m.month = 0 || 12 < m.month then some "month must be in 1..12"
    else if m.day = 0 || daysIn m.year m.month < m.day then some "day is out of range for month"
    else none
  let time := m.time.bind fun t =>
    if 23 < t.hour then some "hour must be in 0..23"
    else if 59 < t.minute then some "minute must be in 0..59"
    else if 59 < t.second then some "second must be in 0..59"
    else none
  zone.or (date.or time)

def pad (width n : Nat) : String :=
  Text.padLeft width '0' (toString n)

def zoneText (minutes : Int) : String :=
  let n := minutes.natAbs
  (if minutes < 0 then "-" else "+") ++ pad 2 (n / 60) ++ ":" ++ pad 2 (n % 60)

def clockText (t : ClockTime) : String :=
  " " ++ pad 2 t.hour ++ ":" ++ pad 2 t.minute ++ ":" ++ pad 2 t.second ++
    (if t.micro = 0 then "" else "." ++ pad 6 t.micro) ++
    (match t.zone with
      | some minutes => zoneText minutes
      | none => "")

def text (m : Moment) : String :=
  pad 4 m.year ++ "-" ++ pad 2 m.month ++ "-" ++ pad 2 m.day ++
    (match m.time with
      | some t => clockText t
      | none => "")

def quoted (m : Moment) : String :=
  let date := s!"{m.year}, {m.month}, {m.day}"
  match m.time with
  | none => s!"datetime.date({date})"
  | some t =>
    let seconds := (if t.second = 0 && t.micro = 0 then "" else s!", {t.second}") ++
      (if t.micro = 0 then "" else s!", {t.micro}")
    let zone := match t.zone with
      | none => ""
      | some 0 => ", tzinfo=datetime.timezone.utc"
      | some minutes => ", tzinfo=datetime.timezone(" ++ spanText minutes ++ ")"
    s!"datetime.datetime({date}, {t.hour}, {t.minute}{seconds}{zone})"

/-- The moment that lies the given seconds after the start of 1970. The days are counted in spans of
four hundred years that begin in March. -/
def ofEpoch (seconds : Nat) : Moment :=
  let days := seconds / 86400 + 719468
  let span := days / 146097
  let inSpan := days % 146097
  let year := (inSpan - inSpan / 1460 + inSpan / 36524 - inSpan / 146096) / 365
  let inYear := inSpan - (365 * year + year / 4 - year / 100)
  let march := (5 * inYear + 2) / 153
  let month := if march < 10 then march + 3 else march - 9
  { year := span * 400 + year + (if month < 3 then 1 else 0)
    month
    day := inYear - (153 * march + 2) / 5 + 1
    time := some ⟨seconds / 3600 % 24, seconds / 60 % 60, seconds % 60, 0, none⟩ }

end Moment

end NPlusOne
