import FormSchema.Command.Arguments
import FormSchema.Command.Document
import FormSchema.FieldState
import FormSchema.Build

/-!
What a command does with the documents around it. A command that fails prints nothing, and writes nothing either
unless it fails while it writes.
-/
namespace FormSchema

inductive Source where
  | nothing
  /-- It opens, but there is nothing to read, as with a directory. -/
  | unreadable
  | standardInput
  | text (text : String)

/-- What a command finds: the files that can be opened, the places where one can be created, the
standard input, which can be read once, and a package for YAML. -/
structure Surroundings where
  source : String → Source
  canCreate : String → Bool
  input : String
  yaml : YamlPackage

structure Output where
  printed : String := ""
  written : Option Document := none

inductive DocumentError where
  | opening (path : String)
  | parsing (path : String)
  | creating (path : String)
  /-- The file was created, and no more than this was written. -/
  | serializing (left : FileText)
  /-- The file was created, but the system did not take the text. -/
  | flushing (path : String)
deriving DecidableEq, Repr

def DocumentError.message : DocumentError → String
  | opening path => "Opening input file " ++ FilePath.quoted path
  | parsing path =>
    "Parsing " ++ (DocumentFormat.ofPath path).name ++ " from " ++ FilePath.quoted path
  | creating path => "Creating output file " ++ FilePath.quoted path
  | serializing left =>
    match DocumentFormat.ofPath left.path with
    | .json => "Writing JSON"
    | .yaml => "Writing schema YAML"
  | flushing _ => "Flushing output"

def DocumentRole.message : DocumentRole → String
  | sample => "Reading sample data from "
  | schema => "Loading schema from "
  | fieldState => "Reading field state from "

inductive CommandError where
  | reading (role : DocumentRole) (path : String) (cause : DocumentError)
  | writing (cause : DocumentError)
  | inferring (input : String) (cause : SchemaError)
  | retyping (itemPath : String) (cause : SchemaError)
  | resolving (itemPath : String) (cause : SchemaError)
  /-- The schema in a document describes no sample. -/
  | noRoot (schema : String)
deriving DecidableEq, Repr

/-- What was being done, and then why it failed. -/
def CommandError.message : CommandError → String
  | reading role path cause => role.message ++ FilePath.quoted path ++ ": " ++ cause.message
  | writing cause => cause.message
  | inferring input cause =>
    "Inferring schema from " ++ FilePath.quoted input ++ ": " ++ cause.message
  | retyping itemPath cause => "Changing field type of '" ++ itemPath ++ "': " ++ cause.message
  | resolving itemPath cause => "Resolving '" ++ itemPath ++ "': " ++ cause.message
  | noRoot schema => "Schema " ++ FilePath.quoted schema ++ " has no root entry"

def CommandError.left? : CommandError → Option FileText
  | writing (.serializing left) => some left
  | _ => none

namespace Surroundings

def read {α : Type} (found : Surroundings) (reader : DocumentReader α) (path : String) :
    Except CommandError (α × Surroundings) :=
  let parse (text : String) (found : Surroundings) : Except CommandError (α × Surroundings) :=
    match reader.read? found.yaml (.ofPath path) text with
    | some value => .ok (value, found)
    | none => .error (.reading reader.role path (.parsing path))
  match if FilePath.isDash path then .standardInput else found.source path with
  | .nothing => .error (.reading reader.role path (.opening path))
  | .unreadable => .error (.reading reader.role path (.parsing path))
  | .standardInput => parse found.input { found with input := "" }
  | .text text => parse text found

def readSample (found : Surroundings) : String → Except CommandError (Json × Surroundings) :=
  found.read .sample

def readSchema (found : Surroundings) : String → Except CommandError (Schema × Surroundings) :=
  found.read .schema

def readPrevious (found : Surroundings) :
    Option String → Except CommandError (Schema × Surroundings)
  | some path => found.readSchema path
  | none => .ok ([], found)

def readState (found : Surroundings) :
    Option String → Except CommandError (Option FieldState × Surroundings)
  | some path => (found.read .fieldState path).map fun (state, found) => (some state, found)
  | none => .ok (none, found)

def write (found : Surroundings) (path : Option String) (value : Json) :
    Except CommandError Output :=
  match path with
  | none => .ok { printed := value.pretty }
  | some path =>
    if FilePath.isDash path then .ok { printed := value.pretty }
    else if !found.canCreate path then .error (.writing (.creating path))
    else
      let document := Document.of found.yaml path value
      if ((DocumentFormat.ofPath path).write found.yaml value).isWhole then .ok { written := some document }
      else .error (.writing (.serializing document.toFileText))

end Surroundings

namespace Command

def run (found : Surroundings) : Command → Except CommandError Output
  | .infer input schema output widget fieldLimit printPaths => do
    let (sample, found) ← found.readSample input
    let (previous, found) ← found.readPrevious schema
    let computed ← (Schema.compute widget fieldLimit (some sample) previous []).mapError
      (.inferring input)
    if computed.status = .limitExceeded then return {}
    let written ← found.write output computed.schema.toJson
    let lines := if printPaths then computed.paths.map (· ++ "\n") else []
    return { written with printed := lines.foldl (· ++ ·) written.printed }
  | .retype schema path kind widget output => do
    let (previous, found) ← found.readSchema schema
    let retyped ← (previous.retype widget kind path).mapError (.retyping path)
    found.write (some (output.getD schema)) retyped.toJson
  | .sourcePath schema path => do
    let (schema, _) ← found.readSchema schema
    let source ← (schema.sourcePathAt path).mapError (.resolving path)
    return { printed := source ++ "\n" }
  | .fieldState path state => do
    let (schema, found) ← found.readSchema path
    match schema.root? with
    | none => .error (.noRoot path)
    | some root => do
      let (internal, found) ← found.readState state
      let projected := FieldState.projectLevel root.children internal
      found.write none (.object (FieldState.fieldsToJson projected))

end Command

end FormSchema
