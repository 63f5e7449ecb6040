import FormSchema.FieldState
import FormSchema.Item.Codec
import FormSchema.Json.Printer
import FormSchema.Json.Reader
import FormSchema.Text.Characters

/-!
Documents: values under a file path, in the format that the path asks for. JSON is read and written here, and
YAML by a package.
-/
namespace FormSchema

namespace FilePath

/-- The parts between slashes, without empty ones and without full stops for the same directory. -/
def parts (path : String) : List String :=
  ((path.toList.splitOn '/').filter fun part => part ≠ [] && part ≠ ['.']).map String.ofList

def isAbsolute (path : String) : Bool := path.toList.head? = some '/'

def startsHere (path : String) : Bool := (path.toList.splitOn '/').head? = some ['.']

def fileName? (path : String) : Option String :=
  (parts path).getLast?.filter (· ≠ "..")

/-- What follows the last full stop of a file's name. One in front of the name does not count. -/
def extension? (path : String) : Option String :=
  match fileName? path with
  | none => none
  | some name =>
    let backwards := name.toList.reverse
    match backwards.dropWhile (· ≠ '.') with
    | [] | ['.'] => none
    | _ => some (String.ofList (backwards.takeWhile (· ≠ '.')).reverse)

def isDash (path : String) : Bool :=
  parts path = ["-"] && !isAbsolute path && !startsHere path

private def hexDigits (n : Nat) : List Char := Nat.toDigits 16 n

/-- A character of a quoted path; an unprintable one is stated by its code. -/
def escape (c : Char) : List Char :=
  if c = '"' || c = '\\' then ['\\', c]
  else if c = '\n' then ['\\', 'n']
  else if c = '\r' then ['\\', 'r']
  else if c = '\t' then ['\\', 't']
  else if c.toNat = 0 then ['\\', '0']
  else if isUnprintable c then ['\\', 'u', '\x7b'] ++ hexDigits c.toNat ++ ['\x7d']
  else [c]

def quoted (path : String) : String :=
  String.ofList ('"' :: path.toList.flatMap escape ++ ['"'])

end FilePath

inductive DocumentFormat where
  | json
  | yaml
deriving DecidableEq, Repr

inductive DocumentRole where
  | sample
  | schema
  | fieldState
deriving DecidableEq, Repr

/-- What is written of a value: a text, which is the whole one unless writing has failed on the way. -/
structure WrittenText where
  text : String
  isWhole : Bool := true

structure YamlPackage where
  /-- The value in a text, in its JSON form. What a scalar stands for depends on what is read. -/
  read? : DocumentRole → String → Option Json
  write : Json → WrittenText

namespace DocumentFormat

def name : DocumentFormat → String
  | json => "JSON"
  | yaml => "YAML"

/-- YAML for the two extensions of it, however capitalized, and JSON for all other paths. -/
def ofPath (path : String) : DocumentFormat :=
  match FilePath.extension? path with
  | some ending =>
    if ["yml", "yaml"].contains (String.ofList (ending.toList.map Char.toLower)) then yaml else json
  | none => json

def read? (package : YamlPackage) (role : DocumentRole) (text : String) : DocumentFormat → Option Json
  | json => Json.read? text
  | yaml => package.read? role text

def write (package : YamlPackage) (value : Json) : DocumentFormat → WrittenText
  | json => { text := value.pretty }
  | yaml => package.write value

end DocumentFormat

structure FileText where
  path : String
  text : String
deriving DecidableEq, Repr

structure Document extends FileText where
  value : Json

namespace Document

def format (d : Document) : DocumentFormat := .ofPath d.path

def of (yaml : YamlPackage) (path : String) (value : Json) : Document where
  path := path
  text := ((DocumentFormat.ofPath path).write yaml value).text
  value := value

end Document

structure DocumentReader (α : Type) where
  role : DocumentRole
  ofJson? : Json → Option α

namespace DocumentReader

def read? {α : Type} (reader : DocumentReader α) (yaml : YamlPackage) (format : DocumentFormat) (text : String) :
    Option α :=
  (format.read? yaml reader.role text).bind reader.ofJson?

def sample : DocumentReader Json := ⟨.sample, fun value => some value.collapse⟩

def schema : DocumentReader Schema := ⟨.schema, Schema.ofJson?⟩

def fieldState : DocumentReader FieldState := ⟨.fieldState, FieldState.ofJson?⟩

end DocumentReader
end FormSchema
