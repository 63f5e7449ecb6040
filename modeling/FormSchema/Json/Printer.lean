import FormSchema.Json.Basic

namespace FormSchema.Json

namespace Printer

def hexByte (n : Nat) : List Char := [Nat.digitChar (n / 16), Nat.digitChar (n % 16)]

/-- Quotes, backslashes and control characters below the blank are escaped, all else is written as
it is. -/
def escape : Char → List Char
  | '"' => ['\\', '"']
  | '\\' => ['\\', '\\']
  | '\x08' => ['\\', 'b']
  | '\x0c' => ['\\', 'f']
  | '\n' => ['\\', 'n']
  | '\r' => ['\\', 'r']
  | '\t' => ['\\', 't']
  | c => if c.toNat < 0x20 then ['\\', 'u', '0', '0'] ++ hexByte c.toNat else [c]

def quote (text : String) : String :=
  String.ofList ('"' :: text.toList.flatMap escape ++ ['"'])

def joined (separator : String) : List String → String
  | [] => ""
  | [part] => part
  | part :: rest => part ++ separator ++ joined separator rest

def lineBreak (indent : Nat) : String :=
  String.ofList ('\n' :: List.replicate (2 * indent) ' ')

def block (opening closing : String) (indent : Nat) (parts : List String) : String :=
  if parts.isEmpty then opening ++ closing
  else opening ++ lineBreak (indent + 1) ++ joined ("," ++ lineBreak (indent + 1)) parts ++
    lineBreak indent ++ closing

mutual
def indented (indent : Nat) : Json → String
  | .null => "null"
  | .bool value => if value then "true" else "false"
  | .int value => toString value
  | .double value => value.render
  | .string text => quote text
  | .array items => block "[" "]" indent (indentedItems (indent + 1) items)
  | .object entries => block "\x7b" "\x7d" indent (indentedEntries (indent + 1) entries)
termination_by structural value => value

def indentedItems (indent : Nat) : List Json → List String
  | [] => []
  | item :: rest => indented indent item :: indentedItems indent rest
termination_by structural items => items

def indentedEntries (indent : Nat) : List (String × Json) → List String
  | [] => []
  | (key, value) :: rest =>
    (quote key ++ ": " ++ indented indent value) :: indentedEntries indent rest
termination_by structural entries => entries
end

mutual
def compact : Json → String
  | .array items => "[" ++ joined "," (compactItems items) ++ "]"
  | .object entries => "\x7b" ++ joined "," (compactEntries entries) ++ "\x7d"
  | value => indented 0 value
termination_by structural value => value

def compactItems : List Json → List String
  | [] => []
  | item :: rest => compact item :: compactItems rest
termination_by structural items => items

def compactEntries : List (String × Json) → List String
  | [] => []
  | (key, value) :: rest => (quote key ++ ":" ++ compact value) :: compactEntries rest
termination_by structural entries => entries
end

end Printer

def pretty (value : Json) : String := Printer.indented 0 value ++ "\n"

def line (value : Json) : String := Printer.compact value

end FormSchema.Json
