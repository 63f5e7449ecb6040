import FormSchema.Text.Characters

/-!
Regular expressions over characters, matched against whole texts by derivatives, and the one for the shape of e-mail
addresses.
-/
namespace FormSchema

inductive Pattern where
  /-- Matches nothing. -/
  | never
  /-- Matches the empty text. -/
  | empty
  /-- Matches one character of a class. -/
  | char (accepts : Char → Bool)
  | seq (first second : Pattern)
  | alt (left right : Pattern)
  | star (body : Pattern)

namespace Pattern

def just (c : Char) : Pattern := char (· == c)

def oneOrMore (p : Pattern) : Pattern := seq p (star p)

/-- At least so many in a row, and up to so many more. -/
def between (p : Pattern) : Nat → Nat → Pattern
  | 0, 0 => empty
  | 0, more + 1 => alt empty (seq p (between p 0 more))
  | least + 1, more => seq p (between p least more)

def sequence : List Pattern → Pattern
  | [] => empty
  | [p] => p
  | p :: rest => seq p (sequence rest)

def nullable : Pattern → Bool
  | never => false
  | empty => true
  | char _ => false
  | seq p q => p.nullable && q.nullable
  | alt p q => p.nullable || q.nullable
  | star _ => true

/-- A sequence, reduced where a part matches nothing or only the empty text. -/
def andThen : Pattern → Pattern → Pattern
  | never, _ => never
  | _, never => never
  | empty, q => q
  | p, q => seq p q

def union : Pattern → Pattern → Pattern
  | never, q => q
  | p, never => p
  | p, q => alt p q

def derivative (c : Char) : Pattern → Pattern
  | never => never
  | empty => never
  | char accepts => if accepts c then empty else never
  | seq p q =>
    if p.nullable then union (andThen (p.derivative c) q) (q.derivative c)
    else andThen (p.derivative c) q
  | alt p q => union (p.derivative c) (q.derivative c)
  | star p => andThen (p.derivative c) (star p)

def accepts : Pattern → List Char → Bool
  | p, [] => p.nullable
  | p, c :: rest => (p.derivative c).accepts rest

end Pattern

namespace Email
open Pattern

/-- Characters that stand in an address before the at sign only between quotes. -/
def specials : List Char := ['<', '>', '(', ')', '[', ']', '\\', '.', ',', ';', ':', '@', '"']

def isAtomChar (c : Char) : Bool := !specials.contains c && !isBlank c

def isLabelChar (c : Char) : Bool := c.isAlphanum || c = '-'

def atom : Pattern := oneOrMore (char isAtomChar)

/-- Atoms between full stops, or anything on one line between quotes. -/
def localPart : Pattern :=
  alt (seq atom (star (seq (just '.') atom)))
    (sequence [just '"', oneOrMore (char (· != '\n')), just '"'])

/-- Four groups of one to three digits in brackets. -/
def numericHost : Pattern :=
  let group := between (char Char.isDigit) 1 2
  sequence [just '[', group, just '.', group, just '.', group, just '.', group, just ']']

/-- At least two labels; the last one holds at least two letters and nothing else. -/
def namedHost : Pattern :=
  sequence [oneOrMore (seq (oneOrMore (char isLabelChar)) (just '.')), char Char.isAlpha,
    oneOrMore (char Char.isAlpha)]

def address : Pattern := sequence [localPart, just '@', alt numericHost namedHost]

end Email

def isEmail (text : String) : Bool := Email.address.accepts text.toList

end FormSchema
