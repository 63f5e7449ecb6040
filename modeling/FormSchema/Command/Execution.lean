import FormSchema.Command.Run

/-!
How commands are carried out: what they ask of the system around them, one thing after the other, up to
the exit code. What a command finds on its way may make it fail at any of these points.
-/
namespace FormSchema

/-- What a command asks of the system around it. -/
class Host (m : Type → Type) where
  /-- Opens a path for reading. -/
  find : String → m Source
  /-- Takes what there is on the standard input. -/
  takeInput : m String
  /-- Creates the file at a path, or empties the one that is there, and tells whether this was possible. -/
  create : String → m Bool
  /-- Writes a text at the end of a file that was created, and tells whether this was possible. -/
  append : String → String → m Bool
  print : String → m Unit
  /-- Prints to the standard error. -/
  complain : String → m Unit

namespace Host
variable {m : Type → Type} [Monad m] [Host m] (yaml : YamlPackage)

def readText (role : DocumentRole) (path : String) : ExceptT CommandError m String := do
  if FilePath.isDash path then (takeInput : m String)
  else match ← (find path : m Source) with
    | .nothing => throw (.reading role path (.opening path))
    | .unreadable => throw (.reading role path (.parsing path))
    | .standardInput => (takeInput : m String)
    | .text text => return text

def read {α : Type} (reader : DocumentReader α) (path : String) : ExceptT CommandError m α := do
  match reader.read? yaml (.ofPath path) (← readText reader.role path) with
  | some value => return value
  | none => throw (.reading reader.role path (.parsing path))

def readSchema (path : String) : ExceptT CommandError m Schema := read yaml .schema path

def readPrevious : Option String → ExceptT CommandError m Schema
  | some path => readSchema yaml path
  | none => return []

def readState : Option String → ExceptT CommandError m (Option FieldState)
  | some path => do return some (← read yaml .fieldState path)
  | none => return none

def write (path : Option String) (value : Json) : ExceptT CommandError m Unit := do
  match path with
  | none => (print value.pretty : m Unit)
  | some path =>
    if FilePath.isDash path then (print value.pretty : m Unit)
    else if !(← (create path : m Bool)) then throw (.writing (.creating path))
    else
      let document := Document.of yaml path value
      let isTaken ← (append path document.text : m Bool)
      if !((DocumentFormat.ofPath path).write yaml value).isWhole then
        throw (.writing (.serializing document.toFileText))
      else if !isTaken then throw (.writing (.flushing path))

end Host

namespace Command
variable {m : Type → Type} [Monad m] [Host m] (yaml : YamlPackage)

def explained {α : Type} (explain : SchemaError → CommandError) : Except SchemaError α → ExceptT CommandError m α
  | .ok value => return value
  | .error cause => throw (explain cause)

def perform : Command → ExceptT CommandError m Unit
  | .infer input schema output widget fieldLimit printPaths => do
    let sample ← Host.read yaml .sample input
    let previous ← Host.readPrevious yaml schema
    let computed ← explained (.inferring input) (Schema.compute widget fieldLimit (some sample) previous [])
    if computed.status = .limitExceeded then return
    Host.write yaml output computed.schema.toJson
    if printPaths then computed.paths.forM fun path => (Host.print (path ++ "\n") : m Unit)
  | .retype schema path kind widget output => do
    let previous ← Host.readSchema yaml schema
    let retyped ← explained (.retyping path) (previous.retype widget kind path)
    Host.write yaml (some (output.getD schema)) retyped.toJson
  | .sourcePath schema path => do
    let schema ← Host.readSchema yaml schema
    let source ← explained (.resolving path) (schema.sourcePathAt path)
    (Host.print (source ++ "\n") : m Unit)
  | .fieldState path state => do
    let schema ← Host.readSchema yaml path
    match schema.root? with
    | none => throw (.noRoot path)
    | some root => do
      let internal ← Host.readState yaml state
      Host.write yaml none (.object (FieldState.fieldsToJson (FieldState.projectLevel root.children internal)))

end Command

namespace Program

def usage : String :=
  "Usage:\n" ++
  "  infer --input FILE [--schema FILE] [--output FILE] [--widget-name NAME] [--field-limit N]\n" ++
  "    [--print-paths]\n" ++
  "  retype --schema FILE --path PATH --field-type KIND [--widget-name NAME] [--output FILE]\n" ++
  "  source-path --schema FILE --path PATH\n" ++
  "  field-state --schema FILE [--state FILE]\n"

variable {m : Type → Type} [Monad m] [Host m]

def run (yaml : YamlPackage) (arguments : List String) : m UInt32 := do
  match Command.ofArguments arguments with
  | .ok command =>
    match ← (command.perform yaml : ExceptT CommandError m Unit).run with
    | .ok () => return 0
    | .error error =>
      Host.complain ("error: " ++ error.message ++ "\n")
      return 1
  | .error .help =>
    Host.print usage
    return 0
  | .error .misuse =>
    Host.complain usage
    return 2

end Program
end FormSchema
