import FormSchema.Date.Calendar
import FormSchema.Text.Characters

/-!
Layouts of written dates: a layout lists the parts of a date in the order they are written. The reader of a part
returns what follows.
-/
namespace FormSchema.DateText

def digitsValue (digits : List Char) : Nat :=
  digits.foldl (fun n c => n * 10 + (c.toNat - '0'.toNat)) 0

def number? (least most : Nat) (cs : List Char) : Option (Nat × List Char) :=
  let digits := (cs.takeWhile Char.isDigit).take most
  if digits.length < least then none else some (digitsValue digits, cs.drop digits.length)

def longNumber? (least : Nat) (cs : List Char) : Option (Nat × List Char) :=
  number? least cs.length cs

def char? (c : Char) : List Char → Option (List Char)
  | d :: rest => if c = d then some rest else none
  | [] => none

/-- What follows a word in small or capital letters. -/
def word? (word cs : List Char) : Option (List Char) :=
  if (cs.take word.length).map Char.toLower = word then some (cs.drop word.length) else none

def monthNames : List String :=
  ["january", "february", "march", "april", "may", "june", "july", "august", "september",
    "october", "november", "december"]

def weekdayNames : List String := ["mon", "tue", "wed", "thu", "fri", "sat", "sun"]

/-- The place of the first name whose first three letters are next, and what follows these. -/
def shortName? (names : List String) (cs : List Char) : Option (Nat × List Char) :=
  names.zipIdx.findSome? fun (name, i) =>
    (word? (name.toList.take 3) cs).map fun rest => (i, rest)

def shortMonth? (cs : List Char) : Option (Nat × List Char) :=
  (shortName? monthNames cs).map fun (i, rest) => (i + 1, rest)

def month? (cs : List Char) : Option (Nat × List Char) :=
  (shortMonth? cs).map fun (month, rest) =>
    let ending := ((monthNames[month - 1]?.getD "").toList).drop 3
    (month, (word? ending rest).getD rest)

/-- The digits of a fraction of a second in nanoseconds; the tenth digit and all after it do not
count. -/
def nanos? (cs : List Char) : Option (Nat × List Char) := do
  let (n, rest) ← number? 1 9 cs
  return (n * Nat.pow 10 (9 - (cs.length - rest.length)), rest.dropWhile Char.isDigit)

def fraction? : List Char → Option (Nat × List Char)
  | '.' :: rest => nanos? rest
  | cs => some (0, cs)

inductive Part where
  /-- Up to four digits, or any number of them after a sign. -/
  | year
  /-- Two digits: 00 to 69 for 2000 to 2069, 70 to 99 for 1970 to 1999. -/
  | shortYear
  | month
  | monthName
  | day
  /-- The hour of the day, 0 to 23. -/
  | hour
  /-- The hour of the half day, 1 to 12. -/
  | halfHour
  | minute
  | second
  /-- A full stop and digits, or nothing. -/
  | fraction
  /-- The half of the day, am or pm. -/
  | half
  | char (c : Char)
  /-- Any number of blanks, also none. -/
  | blanks
deriving DecidableEq, Repr

abbrev Layout := List Part

/-- The numbers read so far; a part that is not read keeps its default. -/
structure Reading where
  year : Int := 0
  month : Nat := 1
  day : Nat := 1
  hour : Nat := 0
  afternoon : Bool := false
  minute : Nat := 0
  second : Nat := 0
  nanos : Nat := 0
deriving DecidableEq, Repr

def bounded? (low high : Nat) (cs : List Char) : Option (Nat × List Char) := do
  let (n, rest) ← number? 1 2 (skipBlanks cs)
  if low ≤ n && n ≤ high then some (n, rest) else none

def year? (cs : List Char) : Option (Int × List Char) :=
  match skipBlanks cs with
  | '-' :: rest => (longNumber? 1 rest).map fun (n, rest) => (-n, rest)
  | '+' :: rest => (longNumber? 1 rest).map fun (n, rest) => (n, rest)
  | cs => (number? 1 4 cs).map fun (n, rest) => (n, rest)

def Part.read? (part : Part) (r : Reading) (cs : List Char) : Option (Reading × List Char) :=
  match part with
  | .year => (year? cs).map fun (n, rest) => ({ r with year := n }, rest)
  | .shortYear => (bounded? 0 99 cs).map fun (n, rest) =>
    ({ r with year := if n < 70 then 2000 + n else 1900 + n }, rest)
  | .month => (bounded? 1 12 cs).map fun (n, rest) => ({ r with month := n }, rest)
  | .monthName => (month? cs).map fun (n, rest) => ({ r with month := n }, rest)
  | .day => (bounded? 1 31 cs).map fun (n, rest) => ({ r with day := n }, rest)
  | .hour => (bounded? 0 23 cs).map fun (n, rest) => ({ r with hour := n }, rest)
  | .halfHour => (bounded? 1 12 cs).map fun (n, rest) => ({ r with hour := n % 12 }, rest)
  | .minute => (bounded? 0 59 cs).map fun (n, rest) => ({ r with minute := n }, rest)
  | .second => (bounded? 0 60 cs).map fun (n, rest) => ({ r with second := n }, rest)
  | .fraction => (fraction? cs).map fun (n, rest) => ({ r with nanos := n }, rest)
  | .half =>
    match word? ['a', 'm'] cs with
    | some rest => some ({ r with afternoon := false }, rest)
    | none => (word? ['p', 'm'] cs).map fun rest => ({ r with afternoon := true }, rest)
  | .char c => (char? c cs).map fun rest => (r, rest)
  | .blanks => some (r, skipBlanks cs)

/-- Reads the parts in turn; the text ends with the last one. -/
def Layout.read? (layout : Layout) (r : Reading) (cs : List Char) : Option Reading :=
  match layout with
  | [] => if cs.isEmpty then some r else none
  | part :: parts =>
    match part.read? r cs with
    | some (r, rest) => Layout.read? parts r rest
    | none => none

def Reading.timestamp? (r : Reading) : Option Timestamp :=
  (Date.of? r.year r.month r.day).map fun date =>
    ⟨date, ⟨if r.afternoon then r.hour + 12 else r.hour, r.minute, r.second, r.nanos⟩⟩

def Layout.timestamp? (layout : Layout) (cs : List Char) : Option Timestamp :=
  (layout.read? {} cs).bind Reading.timestamp?

def separated (c : Char) (parts : List Part) : Layout :=
  parts.intersperse (.char c)

def spaced (first second : Layout) : Layout := first ++ [.blanks] ++ second

def hourMinute : Layout := separated ':' [.hour, .minute]
def hourMinuteSecond : Layout := separated ':' [.hour, .minute, .second]
def withFraction : Layout := hourMinuteSecond ++ [.fraction]
def halfDay : Layout := spaced (separated ':' [.halfHour, .minute]) [.half]
def halfDaySecond : Layout := spaced (separated ':' [.halfHour, .minute, .second]) [.half]

def yearFirst (c : Char) : Layout := separated c [.year, .month, .day]
def monthFirst (c : Char) : Layout := separated c [.month, .day, .year]
def dayFirst (c : Char) : Layout := separated c [.day, .month, .year]
def monthNamed (comma : Layout) : Layout :=
  spaced (spaced [.monthName] (.day :: comma)) [.year]
def dayThenName (comma : Layout) : Layout :=
  spaced (spaced [.day] (.monthName :: comma)) [.year]
def comma : Layout := [.char ',']

/-- Layouts with a time of day, in the order they are tried. -/
def timedLayouts : List Layout :=
  [yearFirst '-' ++ [.char 'T'] ++ withFraction,
    yearFirst '-' ++ [.char 'T'] ++ hourMinute,
    spaced (yearFirst '-') withFraction,
    spaced (yearFirst '-') hourMinute,
    spaced (yearFirst '-') halfDaySecond,
    spaced (yearFirst '-') halfDay,
    spaced (dayFirst '/') hourMinute,
    spaced (monthFirst '/') hourMinute,
    spaced (dayFirst '/') hourMinuteSecond,
    spaced (monthFirst '/') hourMinuteSecond,
    spaced (monthNamed comma) halfDay,
    spaced (monthNamed comma) hourMinute,
    spaced (dayThenName comma) halfDay,
    spaced halfDay (dayThenName comma),
    spaced hourMinute (dayThenName comma)]

def numericLayouts : List Layout :=
  [yearFirst '-', yearFirst '/', monthFirst '-', dayFirst '-', monthFirst '/', dayFirst '/',
    separated '/' [.month, .day, .shortYear], separated '/' [.day, .month, .shortYear]]

def namedLayouts : List Layout :=
  [monthNamed comma, monthNamed [], dayThenName comma, dayThenName []]

/-- Layouts of a day alone, which stands for its midnight. -/
def dayLayouts : List Layout := numericLayouts ++ namedLayouts

end FormSchema.DateText
