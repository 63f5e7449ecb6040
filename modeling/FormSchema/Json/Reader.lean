import FormSchema.Json.Number

/-!
The strict reader of JSON text: one value with nothing but blanks around it. Repeated keys are kept
as written; `collapse` merges them.
-/
namespace FormSchema.Json

namespace Reader

def skipBlanks (cs : List Char) : List Char :=
  cs.dropWhile fun c => c = ' ' || c = '\n' || c = '\t' || c = '\r'

def hexDigit? (c : Char) : Option Nat :=
  if c.isDigit then some (c.toNat - '0'.toNat)
  else if 'a' ≤ c && c ≤ 'f' then some (c.toNat - 'a'.toNat + 10)
  else if 'A' ≤ c && c ≤ 'F' then some (c.toNat - 'A'.toNat + 10)
  else none

def unit? (a b c d : Char) : Option Nat := do
  return ((← hexDigit? a) * 16 + (← hexDigit? b)) * 256 + (← hexDigit? c) * 16 + (← hexDigit? d)

def shortEscape? : Char → Option Char
  | '"' => some '"'
  | '\\' => some '\\'
  | '/' => some '/'
  | 'b' => some '\x08'
  | 'f' => some '\x0c'
  | 'n' => some '\n'
  | 'r' => some '\r'
  | 't' => some '\t'
  | _ => none

def isHighSurrogate (unit : Nat) : Bool := 0xD800 ≤ unit && unit < 0xDC00

def isLowSurrogate (unit : Nat) : Bool := 0xDC00 ≤ unit && unit < 0xE000

def before (c : Char) : Option (List Char × List Char) → Option (List Char × List Char)
  | some (text, rest) => some (c :: text, rest)
  | none => none

/-- A string literal after its opening quote: its text, and what follows the closing quote. A
surrogate counts only in a pair, and control characters only escaped. -/
def text? : List Char → Option (List Char × List Char)
  | [] => none
  | '"' :: rest => some ([], rest)
  | '\\' :: 'u' :: a :: b :: c :: d :: rest =>
    match unit? a b c d with
    | none => none
    | some unit =>
      if isLowSurrogate unit then none
      else if isHighSurrogate unit then
        match rest with
        | '\\' :: 'u' :: e :: f :: g :: h :: rest =>
          match unit? e f g h with
          | none => none
          | some low =>
            if isLowSurrogate low then
              before (Char.ofNat (0x10000 + (unit - 0xD800) * 0x400 + (low - 0xDC00))) (text? rest)
            else none
        | _ => none
      else before (Char.ofNat unit) (text? rest)
  | '\\' :: c :: rest =>
    match shortEscape? c with
    | some c => before c (text? rest)
    | none => none
  | c :: rest => if c.toNat < 0x20 then none else before c (text? rest)

def items? {α : Type} (value? : List Char → Option (α × List Char)) :
    Nat → List Char → Option (List α × List Char)
  | 0, _ => none
  | fuel + 1, cs => do
    let (item, cs) ← value? (skipBlanks cs)
    match skipBlanks cs with
    | ']' :: rest => some ([item], rest)
    | ',' :: rest =>
      let (items, rest) ← items? value? fuel rest
      return (item :: items, rest)
    | _ => none

def entries? {α : Type} (key? : List Char → Option (String × List Char))
    (value? : List Char → Option (α × List Char)) :
    Nat → List Char → Option (List (String × α) × List Char)
  | 0, _ => none
  | fuel + 1, cs => do
    let (key, cs) ← key? (skipBlanks cs)
    let (value, cs) ← value? (skipBlanks cs)
    match skipBlanks cs with
    | '\x7d' :: rest => some ([(key, value)], rest)
    | ',' :: rest => do
      let (entries, rest) ← entries? key? value? fuel rest
      return ((key, value) :: entries, rest)
    | _ => none

def key? : List Char → Option (String × List Char)
  | '"' :: cs => do
    let (key, cs) ← text? cs
    match skipBlanks cs with
    | ':' :: rest => some (String.ofList key, rest)
    | _ => none
  | _ => none

def word? (word : String) (value : Json) (cs : List Char) : Option (Json × List Char) :=
  if word.toList.isPrefixOf cs then some (value, cs.drop word.length) else none

def value? (depth : Nat) (cs : List Char) : Option (Json × List Char) :=
  match cs with
  | '"' :: rest => (text? rest).map fun (text, rest) => (.string (String.ofList text), rest)
  | '[' :: rest =>
    match depth with
    | 0 => none
    | depth + 1 =>
      match skipBlanks rest with
      | ']' :: rest => some (.array [], rest)
      | _ => (items? (value? depth) rest.length rest).map fun (items, rest) => (.array items, rest)
  | '\x7b' :: rest =>
    match depth with
    | 0 => none
    | depth + 1 =>
      match skipBlanks rest with
      | '\x7d' :: rest => some (.object [], rest)
      | _ =>
        (entries? key? (value? depth) rest.length rest).map fun (entries, rest) =>
          (.object entries, rest)
  | 'n' :: _ => word? "null" .null cs
  | 't' :: _ => word? "true" (.bool true) cs
  | 'f' :: _ => word? "false" (.bool false) cs
  | _ => NumberLiteral.read? cs

end Reader

def maxDepth : Nat := 127

def read? (text : String) : Option Json :=
  match Reader.value? maxDepth (Reader.skipBlanks text.toList) with
  | some (value, rest) => if (Reader.skipBlanks rest).isEmpty then some value else none
  | none => none

end FormSchema.Json
