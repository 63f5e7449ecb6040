namespace FormSchema

structure Date where
  year : Int
  month : Nat
  day : Nat
deriving DecidableEq, Repr

namespace Date

def isLeap (year : Int) : Bool := year % 4 = 0 && (year % 100 ≠ 0 || year % 400 = 0)

def monthLengths (year : Int) : List Nat :=
  [31, if isLeap year then 29 else 28, 31, 30, 31, 30, 31, 31, 30, 31, 30, 31]

def monthLength (year : Int) (month : Nat) : Nat :=
  if month = 0 then 0 else (monthLengths year)[month - 1]?.getD 0

def firstYear : Int := -262143
def lastYear : Int := 262142

def isValid (d : Date) : Bool :=
  firstYear ≤ d.year && d.year ≤ lastYear && 1 ≤ d.day && d.day ≤ monthLength d.year d.month

def of? (year : Int) (month day : Nat) : Option Date :=
  let d : Date := ⟨year, month, day⟩
  if d.isValid then some d else none

/-- Days up to and including this one, counted from the first day of year 1. -/
def ordinal (d : Date) : Int :=
  let y := d.year - 1
  365 * y + y / 4 - y / 100 + y / 400 +
    ((monthLengths d.year).take (d.month - 1)).foldl (· + ·) d.day

def weekday (d : Date) : Nat := ((d.ordinal - 1) % 7).toNat

def next (d : Date) : Date :=
  if d.day < monthLength d.year d.month then { d with day := d.day + 1 }
  else if d.month < 12 then ⟨d.year, d.month + 1, 1⟩
  else ⟨d.year + 1, 1, 1⟩

def previous (d : Date) : Date :=
  if 1 < d.day then { d with day := d.day - 1 }
  else if 1 < d.month then ⟨d.year, d.month - 1, monthLength d.year (d.month - 1)⟩
  else ⟨d.year - 1, 12, 31⟩

end Date

/-- A time of day. A leap second is second 60 of its minute. -/
structure Time where
  hour : Nat
  minute : Nat
  second : Nat
  nanos : Nat
deriving DecidableEq, Repr

namespace Time

def midnight : Time := ⟨0, 0, 0, 0⟩

def isValid (t : Time) : Bool :=
  t.hour < 24 && t.minute < 60 && t.second ≤ 60 && t.nanos < 1000000000

end Time

structure Timestamp where
  date : Date
  time : Time
deriving DecidableEq, Repr

namespace Timestamp

/-- The timestamp so many minutes, less than a day, earlier. None where dates end. -/
def minusMinutes (t : Timestamp) (minutes : Int) : Option Timestamp :=
  let shifted := (t.time.hour * 60 + t.time.minute : Nat) - minutes
  let date :=
    if shifted < 0 then t.date.previous else if 1440 ≤ shifted then t.date.next else t.date
  let minute := (shifted % 1440).toNat
  if date.isValid then some ⟨date, { t.time with hour := minute / 60, minute := minute % 60 }⟩
  else none

private def padded (width n : Nat) : String :=
  let digits := (toString n).toList
  String.ofList (List.replicate (width - digits.length) '0' ++ digits)

/-- Four digits at least, and a sign outside 0 to 9999. -/
private def yearText (year : Int) : String :=
  let sign := if year < 0 then "-" else if 9999 < year then "+" else ""
  sign ++ padded 4 year.natAbs

/-- Nothing, or three, six or nine digits: the fewest that lose nothing. -/
private def fraction (nanos : Nat) : String :=
  if nanos = 0 then ""
  else if nanos % 1000000 = 0 then "." ++ padded 3 (nanos / 1000000)
  else if nanos % 1000 = 0 then "." ++ padded 6 (nanos / 1000)
  else "." ++ padded 9 nanos

def render (t : Timestamp) : String :=
  yearText t.date.year ++ "-" ++ padded 2 t.date.month ++ "-" ++ padded 2 t.date.day ++ "T" ++
    padded 2 t.time.hour ++ ":" ++ padded 2 t.time.minute ++ ":" ++ padded 2 t.time.second ++
    fraction t.time.nanos

end Timestamp
end FormSchema
