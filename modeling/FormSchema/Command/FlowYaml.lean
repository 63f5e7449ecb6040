import FormSchema.Command.Document

/-!
YAML in flow style, the part of YAML that looks like JSON: brackets, braces, quoted texts, numbers and the words
null, true and false. It is enough to run commands where all YAML is written so. The rules for the text are those of
YAML: which characters may occur, where lines end, what a line break in a quoted text stands for, and how far a key
may reach.
-/
namespace FormSchema

inductive FlowYaml where
  /-- A scalar without quotes, as it is written. -/
  | plain (text : String)
  | quoted (text : String)
  | sequence (items : List FlowYaml)
  | mapping (entries : List (String × FlowYaml))

namespace FlowYaml

def scalarText? : FlowYaml → Option String
  | .plain text | .quoted text => some text
  | _ => none

/-- The value of a number as it is written. Whole numbers of 64 bits are exact, those of more than
128 bits and all others are the nearest double, and those between are refused. What lies beyond all
doubles is a text. -/
def numberValue? (text : String) (literal : NumberLiteral) : Option Json :=
  let fraction := literal.fraction.getD []
  let n := NumberLiteral.value (literal.integer ++ fraction)
  let nearest : Json :=
    match Double.ofDecimal literal.negative n (literal.exponent.getD 0 - fraction.length) with
    | some d => .double d
    | none => .string text
  if !literal.isInteger then some nearest
  else if literal.negative then
    if n ≤ 9223372036854775808 then some (.int (-n))
    else if n ≤ Nat.pow 2 127 then none else some nearest
  else if n < UInt64.size then some (.int n)
  else if n < Nat.pow 2 128 then none else some nearest

/-- The value that a scalar without quotes stands for: null, a truth value, a number or its text. An
empty one is null. -/
def plainValue? (text : String) : Option Json :=
  if text = "" || text = "null" then some .null
  else if text = "true" then some (.bool true)
  else if text = "false" then some (.bool false)
  else match NumberLiteral.scan? text.toList with
    | some (literal, []) => numberValue? text literal
    | _ => some (.string text)

mutual
def toJson? : FlowYaml → Option Json
  | .plain text => plainValue? text
  | .quoted text => some (.string text)
  | .sequence items => (itemsToJson? items).map .array
  | .mapping entries => (entriesToJson? entries).map .object
termination_by structural document => document

def itemsToJson? : List FlowYaml → Option (List Json)
  | [] => some []
  | item :: rest =>
    match toJson? item, itemsToJson? rest with
    | some value, some values => some (value :: values)
    | _, _ => none
termination_by structural items => items

def entriesToJson? : List (String × FlowYaml) → Option (List (String × Json))
  | [] => some []
  | (key, item) :: rest =>
    match toJson? item, entriesToJson? rest with
    | some value, some values => some ((key, value) :: values)
    | _, _ => none
termination_by structural entries => entries
end

namespace Reader

def isAllowed (c : Char) : Bool :=
  let n := c.toNat
  n = 0x09 || n = 0x0a || n = 0x0d || (0x20 ≤ n && n ≤ 0x7e) || n = 0x85 ||
    (0xa0 ≤ n && n ≤ 0xfffd) || 0x10000 ≤ n

def nextLine : Char := '\u0085'

def isBreak (c : Char) : Bool :=
  c = '\n' || c = '\r' || c = nextLine || c = '\u2028' || c = '\u2029'

/-- What spaces and line breaks within a quoted text stand for. Spaces count only where there is no
break among them. A next line alone is a space, and before other breaks it is nothing. -/
def fold (gap : List Char) : List Char :=
  match gap.dropWhile (· = ' ') with
  | [] => gap
  | first :: rest =>
    let others := (rest.filter (· ≠ ' ')).map fun c => if c = nextLine then '\n' else c
    if first ≠ nextLine then first :: others
    else if others.isEmpty then [' '] else others

/-- Three hyphens or full stops that stand alone, which at the start of a line part documents. -/
def startsMarker (cs : List Char) : Bool :=
  (cs.take 3 = ['-', '-', '-'] || cs.take 3 = ['.', '.', '.']) &&
    (cs.drop 3).head?.all fun c => c = ' ' || isBreak c

private def after (gap : List Char) (c : Char) :
    Option (List Char × List Char) → Option (List Char × List Char)
  | some (text, rest) => some (fold gap.reverse ++ c :: text, rest)
  | none => none

/-- A quoted text after its opening quote: the text, and what follows the closing quote. The spaces
and line breaks just read are held backwards. No surrogates are written as escapes, not in pairs
either. -/
def text? (gap : List Char) : List Char → Option (List Char × List Char)
  | [] => none
  | '"' :: rest => some (fold gap.reverse, rest)
  | '\\' :: 'u' :: a :: b :: c :: d :: rest =>
    match Json.Reader.unit? a b c d with
    | none => none
    | some unit =>
      if Json.Reader.isHighSurrogate unit || Json.Reader.isLowSurrogate unit then none
      else after gap (Char.ofNat unit) (text? [] rest)
  | '\\' :: c :: rest =>
    match Json.Reader.shortEscape? c with
    | some c => after gap c (text? [] rest)
    | none => none
  | c :: rest =>
    if c.toNat < 0x20 then none
    else if c = ' ' || isBreak c then text? (c :: gap) rest
    else if gap.head?.any isBreak && startsMarker (c :: rest) then none
    else after gap c (text? [] rest)

def maxKeySpan : Nat := 1024

def key? (cs : List Char) : Option (String × List Char) :=
  match cs with
  | '"' :: rest => do
    let (key, rest) ← text? [] rest
    match Json.Reader.skipBlanks rest with
    | ':' :: rest =>
      let span := cs.take (cs.length - rest.length)
      if span.length ≤ maxKeySpan + 1 && !span.any isBreak then some (String.ofList key, rest)
      else none
    | _ => none
  | _ => none

def plain? (cs : List Char) : Option (FlowYaml × List Char) :=
  match ["null", "true", "false"].find? fun word => word.toList.isPrefixOf cs with
  | some word => some (.plain word, cs.drop word.length)
  | none => (NumberLiteral.scan? cs).map fun (_, rest) =>
    (.plain (String.ofList (cs.take (cs.length - rest.length))), rest)

def value? (depth : Nat) (cs : List Char) : Option (FlowYaml × List Char) :=
  match cs with
  | '"' :: rest => (text? [] rest).map fun (text, rest) => (.quoted (String.ofList text), rest)
  | '[' :: rest =>
    match depth with
    | 0 => none
    | depth + 1 =>
      match Json.Reader.skipBlanks rest with
      | ']' :: rest => some (.sequence [], rest)
      | _ => (Json.Reader.items? (value? depth) rest.length rest).map fun (items, rest) =>
        (.sequence items, rest)
  | '\x7b' :: rest =>
    match depth with
    | 0 => none
    | depth + 1 =>
      match Json.Reader.skipBlanks rest with
      | '\x7d' :: rest => some (.mapping [], rest)
      | _ => (Json.Reader.entries? key? (value? depth) rest.length rest).map fun (entries, rest) =>
        (.mapping entries, rest)
  | _ => plain? cs

/-- Whether only blanks follow the whole document. After a node that is closed, tabs end with the
line. -/
def endsAfter (document : FlowYaml) (rest : List Char) : Bool :=
  let isOpen := match document with
    | .plain _ => true
    | _ => false
  (Json.Reader.skipBlanks rest).isEmpty && (isOpen || !(rest.dropWhile (!isBreak ·)).contains '\t')

end Reader

def maxDepth : Nat := 128

/-- Reads a whole text. A byte order mark may stand in front, and no tabs before the first node.
Blanks alone are an empty scalar. -/
def read? (text : String) : Option FlowYaml :=
  let cs := match text.toList with
    | '\ufeff' :: rest => rest
    | cs => cs
  let body := Json.Reader.skipBlanks cs
  if !cs.all Reader.isAllowed || (cs.take (cs.length - body.length)).contains '\t' then none
  else if body.isEmpty then some (.plain "")
  else match Reader.value? maxDepth body with
    | some (document, rest) => if Reader.endsAfter document rest then some document else none
    | none => none

/-! Schemas read as in JSON, but a member of an item that is a text takes any scalar as it is written, and a name
is never written as an object. -/

def textMembers : List String :=
  ["identifier", "originalIdentifier", "accessor", "label", "dataType", "fieldType"]

mutual
def itemToJson? : FlowYaml → Option Json
  | .mapping members => (membersToJson? members).map .object
  | _ => none
termination_by structural document => document

def membersToJson? : List (String × FlowYaml) → Option (List (String × Json))
  | [] => some []
  | (name, member) :: rest =>
    let value? :=
      if textMembers.contains name then member.scalarText?.map .string
      else if name = "children" then levelToJson? member
      else member.toJson?
    match value?, membersToJson? rest with
    | some value, some values => some ((name, value) :: values)
    | _, _ => none
termination_by structural members => members

/-- The JSON form of a stored level. An empty scalar is an empty level. -/
def levelToJson? : FlowYaml → Option Json
  | .mapping entries => (itemEntriesToJson? entries).map .object
  | .plain "" => some (.object [])
  | _ => none
termination_by structural document => document

def itemEntriesToJson? : List (String × FlowYaml) → Option (List (String × Json))
  | [] => some []
  | (key, item) :: rest =>
    match itemToJson? item, itemEntriesToJson? rest with
    | some value, some values => some ((key, value) :: values)
    | _, _ => none
termination_by structural entries => entries
end

end FlowYaml

def YamlPackage.flow : YamlPackage where
  read? role text := (FlowYaml.read? text).bind fun document =>
    match role with
    | .schema => document.levelToJson?
    | .sample | .fieldState => document.toJson?
  write value := { text := value.pretty }

end FormSchema
