import FormSchema.Date.Calendar
import FormSchema.Date.Layout
import FormSchema.Text.Characters

namespace FormSchema

namespace DateText

def pair? (cs : List Char) : Option (Nat × List Char) := number? 2 2 cs

/-- The sign, hours and minutes of an offset from universal time, in minutes, less than a day. -/
def offset? (minus : List Char) (separator : List Char → Option (List Char)) :
    List Char → Option (Int × List Char)
  | [] => none
  | sign :: cs => do
    let negative ←
      if sign = '+' then some false else if minus.contains sign then some true else none
    let (hours, cs) ← pair? cs
    let (minutes, cs) ← pair? (← separator cs)
    if 23 < hours || 59 < minutes then none
    else
      let total : Int := (hours * 60 + minutes : Nat)
      return (if negative then -total else total, cs)

def universal? (date : Date) (time : Time) (offset : Int) : Option Timestamp :=
  if time.isValid then (Timestamp.mk date time).minusMinutes offset else none

/-- RFC 3339: `2021-12-30T10:36:12.5+05:30`. Also a small t or a blank between date and time, a
small z, and the minus sign U+2212. -/
def rfc3339? (cs : List Char) : Option Timestamp := do
  let (year, cs) ← number? 4 4 cs
  let (month, cs) ← pair? (← char? '-' cs)
  let (day, cs) ← pair? (← char? '-' cs)
  let cs ← match cs with
    | 'T' :: rest | 't' :: rest | ' ' :: rest => some rest
    | _ => none
  let (hour, cs) ← pair? cs
  let (minute, cs) ← pair? (← char? ':' cs)
  let (second, cs) ← pair? (← char? ':' cs)
  let (nanos, cs) ← fraction? cs
  let (offset, cs) ← match cs with
    | 'Z' :: rest | 'z' :: rest => some (0, rest)
    | cs => offset? ['-', '\u2212'] (char? ':') cs
  let date ← Date.of? year month day
  if cs.isEmpty then universal? date ⟨hour, minute, second, nanos⟩ offset else none

def blanks? (cs : List Char) : Option (List Char) :=
  if cs.head?.any isBlank then some (skipBlanks cs) else none

/-- Named zones in small letters, with their offsets in hours. -/
def namedZones : List (String × Int) :=
  [("gmt", 0), ("ut", 0), ("z", 0), ("edt", -4), ("est", -5), ("cdt", -5), ("cst", -6), ("mdt", -6),
    ("mst", -7), ("pdt", -7), ("pst", -8)]

def zoneOffset? (name : List Char) : Option Int :=
  let name := name.map Char.toLower
  match namedZones.lookup (String.ofList name) with
  | some hours => some (hours * 60)
  | none => match name with
    | [c] => if c = 'j' then none else some 0
    | _ => none

def zone? (cs : List Char) : Option (Int × List Char) :=
  match cs.takeWhile Char.isAlpha with
  | [] => offset? ['-'] some cs
  | name => (zoneOffset? name).map fun offset => (offset, cs.dropWhile Char.isAlpha)

/-- What follows the end of a comment that is open so many times. A backslash takes the character
after it into the comment. -/
def comment? : Nat → List Char → Option (List Char)
  | _, [] => none
  | depth, '\\' :: _ :: rest => comment? depth rest
  | depth, '(' :: rest => comment? (depth + 1) rest
  | depth, ')' :: rest => if depth ≤ 1 then some rest else comment? (depth - 1) rest
  | depth, _ :: rest => comment? depth rest

def onlyComments : Nat → List Char → Bool
  | _, [] => true
  | 0, _ => false
  | fuel + 1, cs =>
    match skipBlanks cs with
    | '(' :: rest => match comment? 1 rest with
      | some rest => onlyComments fuel rest
      | none => false
    | _ => false

/-- A year of two digits lies between 1950 and 2049; one of three digits counts from 1900. -/
def longYear (digits n : Nat) : Nat :=
  if digits = 2 then (if n < 50 then 2000 + n else 1900 + n) else if digits = 3 then 1900 + n else n

/-- RFC 2822: `Thu, 30 Dec 2021 10:36:12 +0530`, where the day of the week may be missing but not
wrong, and comments may follow. -/
def rfc2822? (cs : List Char) : Option Timestamp := do
  let cs := skipBlanks cs
  let (weekday, cs) ← match shortName? weekdayNames cs with
    | some (i, rest) => (char? ',' rest).map fun rest => (some i, rest)
    | none => some (none, cs)
  let (day, cs) ← number? 1 2 (skipBlanks cs)
  let (month, cs) ← shortMonth? (← blanks? cs)
  let yearText ← blanks? cs
  let (n, cs) ← longNumber? 2 yearText
  let year := longYear (yearText.length - cs.length) n
  let (hour, cs) ← pair? (← blanks? cs)
  let (minute, cs) ← pair? (skipBlanks (← char? ':' (skipBlanks cs)))
  let (second, cs) ← match skipBlanks cs with
    | ':' :: rest => pair? rest
    | _ => some (0, cs)
  let (offset, cs) ← zone? (← blanks? cs)
  let date ← Date.of? year month day
  if onlyComments cs.length cs && weekday.all (· = date.weekday) then
    universal? date ⟨hour, minute, second, 0⟩ offset
  else none

end DateText

open DateText in
/-- The moment that a text without blanks around it states, in the first form that fits: the two
internet forms, then the layouts with a time, then those of a day alone. Digits alone are no
date. -/
def DateText.read? (cs : List Char) : Option Timestamp :=
  if cs.all Char.isDigit then none
  else
    ((rfc3339? cs).orElse fun _ => rfc2822? cs).orElse fun _ =>
      (timedLayouts.findSome? (Layout.timestamp? · cs)).orElse fun _ =>
        dayLayouts.findSome? (Layout.timestamp? · cs)

/-- The moment that a text states; blanks around it do not count. -/
def Timestamp.ofText? (text : String) : Option Timestamp :=
  DateText.read? (trimBlanks text.toList)

def isDateLike (text : String) : Bool := (Timestamp.ofText? text).isSome

end FormSchema
