import GatewayFleet.Text.Blank

/-! Points in time of the civil calendar, with fractions of a second. They are read with any offset
from universal time, with blanks between their parts, and kept in universal time. A leap second is
the sixtieth of its minute. -/

namespace GatewayFleet.Audit

structure Date where
  year : Int
  month : Nat
  day : Nat
deriving DecidableEq

def isLeapYear (y : Int) : Bool := y % 4 = 0 && (y % 100 ≠ 0 || y % 400 = 0)

def monthLength (y : Int) (m : Nat) : Nat :=
  if m = 2 then if isLeapYear y then 29 else 28
  else if m ∈ [4, 6, 9, 11] then 30 else 31

def firstYear : Int := -262143
def lastYear : Int := 262142

def Date.isValid (d : Date) : Bool :=
  firstYear ≤ d.year && d.year ≤ lastYear && 1 ≤ d.month && d.month ≤ 12 && 1 ≤ d.day &&
    d.day ≤ monthLength d.year d.month

def Date.next (d : Date) : Date :=
  if d.day < monthLength d.year d.month then { d with day := d.day + 1 }
  else if d.month < 12 then ⟨d.year, d.month + 1, 1⟩
  else ⟨d.year + 1, 1, 1⟩

def Date.previous (d : Date) : Date :=
  if 1 < d.day then { d with day := d.day - 1 }
  else if 1 < d.month then ⟨d.year, d.month - 1, monthLength d.year (d.month - 1)⟩
  else ⟨d.year - 1, 12, 31⟩

structure Timestamp where
  date : Date
  /-- Seconds since midnight, the leap second not counted. -/
  second : Nat
  isLeap : Bool
  nanosecond : Nat
deriving DecidableEq

def daySeconds : Nat := 86400

/-- The same point seen from universal time, for a local time that is ahead by `offset` seconds,
less than a day in either direction. -/
def Timestamp.shift (t : Timestamp) (offset : Int) : Timestamp :=
  let s := (t.second : Int) - offset
  if s < 0 then { t with date := t.date.previous, second := (s + daySeconds).toNat }
  else if s < daySeconds then { t with second := s.toNat }
  else { t with date := t.date.next, second := (s - daySeconds).toNat }

def padded (width n : Nat) : String :=
  let ds := Nat.toDigits 10 n
  String.ofList (List.replicate (width - ds.length) '0' ++ ds)

def yearText (y : Int) : String :=
  if 0 ≤ y ∧ y ≤ 9999 then padded 4 y.toNat
  else (if y < 0 then "-" else "+") ++ padded 4 y.natAbs

/-- A fraction of three, six or nine digits, whichever shows it all, or none. -/
def fractionText (nanosecond : Nat) : String :=
  if nanosecond = 0 then ""
  else if nanosecond % 1000000 = 0 then "." ++ padded 3 (nanosecond / 1000000)
  else if nanosecond % 1000 = 0 then "." ++ padded 6 (nanosecond / 1000)
  else "." ++ padded 9 nanosecond

def Timestamp.text (t : Timestamp) : String :=
  let second := t.second % 60 + (if t.isLeap then 1 else 0)
  yearText t.date.year ++ "-" ++ padded 2 t.date.month ++ "-" ++ padded 2 t.date.day ++ "T" ++
    padded 2 (t.second / 3600) ++ ":" ++ padded 2 (t.second / 60 % 60) ++ ":" ++ padded 2 second ++
    fractionText t.nanosecond ++ "Z"

inductive TimeProblem
  | invalid | tooShort | tooLong | outOfRange
deriving DecidableEq, Repr

def TimeProblem.text : TimeProblem → String
  | .invalid => "input contains invalid characters"
  | .tooShort => "premature end of input"
  | .tooLong => "trailing input"
  | .outOfRange => "input is out of range"

def skipBlanks (s : List Char) : List Char := s.dropWhile Text.isBlank

def decimal (ds : List Char) : Nat := ds.foldl (fun n d => n * 10 + (d.toNat - '0'.toNat)) 0

def readDigits (limit : Option Nat) (s : List Char) : Except TimeProblem (Nat × List Char) :=
  let run := s.takeWhile Char.isDigit
  let ds := match limit with
    | some n => run.take n
    | none => run
  if s.isEmpty then .error .tooShort
  else if ds.isEmpty then .error .invalid
  else if decimal ds < 0x8000000000000000 then .ok (decimal ds, s.drop ds.length)
  else .error .outOfRange

def readPart (low high : Nat) (s : List Char) : Except TimeProblem (Nat × List Char) := do
  let (n, s) ← readDigits (some 2) (skipBlanks s)
  if low ≤ n ∧ n ≤ high then .ok (n, s) else .error .outOfRange

/-- A year: four digits at most, or any number of them behind a sign. -/
def readYear (s : List Char) : Except TimeProblem (Int × List Char) := do
  let (y, s) ← match skipBlanks s with
    | '-' :: r => do
      let (n, r) ← readDigits none r
      pure (-(n : Int), r)
    | '+' :: r => do
      let (n, r) ← readDigits none r
      pure ((n : Int), r)
    | r => do
      let (n, r) ← readDigits (some 4) r
      pure ((n : Int), r)
  if -0x80000000 ≤ y ∧ y < 0x80000000 then .ok (y, s) else .error .outOfRange

def readSeparator (c : Char) (s : List Char) : Except TimeProblem (List Char) :=
  match skipBlanks s with
  | [] => .error .tooShort
  | d :: r => if d = c then .ok r else .error .invalid

/-- Digits behind a point; those after the ninth do not count. -/
def readFraction (s : List Char) : Except TimeProblem (Nat × List Char) :=
  match s with
  | '.' :: r => do
    let (n, left) ← readDigits (some 9) r
    .ok (n * Nat.pow 10 (9 - (r.length - left.length)), left.dropWhile Char.isDigit)
  | _ => .ok (0, s)

def readPair (top : Char) (s : List Char) : Except TimeProblem (Nat × List Char) :=
  match s with
  | a :: b :: r =>
    if a.isDigit && b.isDigit then
      if a ≤ top then .ok (decimal [a, b], r) else .error .outOfRange
    else .error .invalid
  | [c] => if c.utf8Size < 2 then .error .tooShort else .error .invalid
  | [] => .error .tooShort

def readOffsetParts (s : List Char) : Except TimeProblem (Int × List Char) := do
  let (hours, s) ← readPair '9' s
  let (minutes, s) ← readPair '5' (s.dropWhile fun c => c = ':' || Text.isBlank c)
  .ok ((hours * 3600 + minutes * 60 : Nat), s)

def readZone (s : List Char) : Except TimeProblem (Int × List Char) :=
  match s with
  | [] => .error .tooShort
  | c :: r =>
    if (s.take 3).map Char.toUpper = ['U', 'T', 'C'] then .ok (0, s.drop 3)
    else if c = 'Z' || c = 'z' then .ok (0, r)
    else if c = '+' then readOffsetParts r
    else if c = '-' || c = '\u2212' then (readOffsetParts r).map fun (n, left) => (-n, left)
    else .error .invalid

def readDate (s : List Char) : Except TimeProblem (Date × List Char) := do
  let (year, s) ← readYear s
  let s ← readSeparator '-' s
  let (month, s) ← readPart 1 12 s
  let s ← readSeparator '-' s
  let (day, s) ← readPart 1 31 s
  .ok (⟨year, month, day⟩, s)

def readClock (s : List Char) : Except TimeProblem ((Nat × Bool × Nat) × List Char) := do
  let (hour, s) ← readPart 0 23 s
  let s ← readSeparator ':' s
  let (minute, s) ← readPart 0 59 s
  let s ← readSeparator ':' s
  let (second, s) ← readPart 0 60 s
  let (nanosecond, s) ← readFraction s
  .ok ((hour * 3600 + minute * 60 + min second 59, second = 60, nanosecond), s)

def readMiddle : List Char → Except TimeProblem (List Char)
  | [] => .error .tooShort
  | c :: r => if c = 't' || c = 'T' || c = ' ' then .ok r else .error .invalid

def Timestamp.read (text : String) : Except TimeProblem Timestamp := do
  let (date, s) ← readDate text.toList
  let (clock, s) ← readClock (← readMiddle s)
  let (offset, s) ← readZone (skipBlanks s)
  if !(skipBlanks s).isEmpty then throw .tooLong
  if !date.isValid || offset.natAbs ≥ daySeconds then throw .outOfRange
  let t := (⟨date, clock.1, clock.2.1, clock.2.2⟩ : Timestamp).shift offset
  if t.date.isValid then pure t else throw .outOfRange

end GatewayFleet.Audit
