import FormSchema.Json.Basic

namespace FormSchema

structure NumberLiteral where
  negative : Bool
  integer : List Char
  fraction : Option (List Char)
  exponent : Option Int
deriving DecidableEq, Repr

namespace NumberLiteral

def isInteger (literal : NumberLiteral) : Bool :=
  literal.fraction.isNone && literal.exponent.isNone

def value (digits : List Char) : Nat := digits.foldl (fun n c => n * 10 + (c.toNat - '0'.toNat)) 0

/-- Appends digits to a significand while it stays below `2^64`, and leaves the others. -/
def absorb (significand : Nat) : List Char → Nat × List Char
  | [] => (significand, [])
  | c :: rest =>
    let grown := significand * 10 + (c.toNat - '0'.toNat)
    if grown < UInt64.size then absorb grown rest else (significand, c :: rest)

private def product (a b : Double) : Option Double :=
  Double.ofQuotient false (a.magnitude.1 * b.magnitude.1) (a.magnitude.2 * b.magnitude.2)

private def quotient (a b : Double) : Option Double :=
  Double.ofQuotient false (a.magnitude.1 * b.magnitude.2) (a.magnitude.2 * b.magnitude.1)

private def whole (n : Nat) : Option Double := Double.ofQuotient false n 1

private def powerOfTen (n : Nat) : Option Double := whole (Nat.pow 10 n)

/-- `significand · 10^exponent`: the significand, the power of ten and the result are each rounded.
Powers of ten reach `10^308`; a smaller number is divided twice. None when too large. -/
def scale (significand : Nat) (exponent : Int) : Option Double := do
  let value ← whole significand
  if significand = 0 || exponent < -616 then return Double.zero false
  else if 308 < exponent then none
  else if 0 ≤ exponent then product value (← powerOfTen exponent.toNat)
  else if -308 ≤ exponent then quotient value (← powerOfTen (-exponent).toNat)
  else
    let reduced ← quotient value (← powerOfTen 308)
    quotient reduced (← powerOfTen (-exponent - 308).toNat)

/-- The double written with these digits before and after the point and this exponent. Digits that
no longer fit the significand count as zeros before the point and are dropped after it. -/
def toDouble (negative : Bool) (integer fraction : List Char) (exponent : Int) : Option Double :=
  let (head, skipped) := absorb 0 integer
  let (significand, dropped) := absorb head fraction
  let places : Int := (fraction.length : Int) - dropped.length
  (scale significand (skipped.length - places + exponent)).map ({ · with negative := negative })

/-- A literal without point and exponent; beyond 64 bits, and for minus zero, a double. -/
def ofInteger (negative : Bool) (digits : List Char) : Option Json :=
  let n := value digits
  if negative && 0 < n && n ≤ 9223372036854775808 then some (.int (-n))
  else if !negative && n < UInt64.size then some (.int n)
  else (toDouble negative digits [] 0).map .double

def digits (cs : List Char) : List Char × List Char :=
  (cs.takeWhile Char.isDigit, cs.dropWhile Char.isDigit)

def fraction? : List Char → Option (Option (List Char) × List Char)
  | '.' :: rest => match digits rest with
    | ([], _) => none
    | (places, rest) => some (some places, rest)
  | cs => some (none, cs)

def power? (negative : Bool) (cs : List Char) : Option (Option Int × List Char) :=
  match digits cs with
  | ([], _) => none
  | (power, rest) => some (some (if negative then -value power else value power), rest)

def exponent? : List Char → Option (Option Int × List Char)
  | [] => some (none, [])
  | mark :: cs =>
    if mark = 'e' || mark = 'E' then
      match cs with
      | '-' :: rest => power? true rest
      | '+' :: rest => power? false rest
      | _ => power? false cs
    else some (none, mark :: cs)

def integer? (cs : List Char) : Option (List Char × List Char) :=
  match (digits cs).1 with
  | [] | '0' :: _ :: _ => none
  | _ => some (digits cs)

def sign : List Char → Bool × List Char
  | '-' :: rest => (true, rest)
  | cs => (false, cs)

def scan? (cs : List Char) : Option (NumberLiteral × List Char) := do
  let (negative, cs) := sign cs
  let (integer, cs) ← integer? cs
  let (fraction, cs) ← fraction? cs
  let (exponent, cs) ← exponent? cs
  return ({ negative, integer, fraction, exponent }, cs)

def toJson? (literal : NumberLiteral) : Option Json :=
  if literal.isInteger then ofInteger literal.negative literal.integer
  else
    (toDouble literal.negative literal.integer (literal.fraction.getD [])
      (literal.exponent.getD 0)).map .double

def read? (cs : List Char) : Option (Json × List Char) := do
  let (literal, rest) ← scan? cs
  return (← literal.toJson?, rest)

end NumberLiteral
end FormSchema
