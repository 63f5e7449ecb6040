import FormSchema.Command.Execution
import FormSchema.Command.FlowYaml

/-!
A directory in which commands are run, as the texts of its files. Of the system around it only the
directories and devices are known that every system has. A world has such a directory, a standard input, and a
record of what is done; whatever is written beside the directory leaves no trace in it but its path.
-/
namespace FormSchema

/-- Texts under the names of files; the name of a file of a directory below has the directory's name
and a slash in front. -/
abbrev Directory := OrderedMap String

inductive Place where
  /-- The directory itself, or a place below it, by the names on the way. -/
  | inside (names : List String)
  /-- A directory that the directory lies in. -/
  | around
  /-- A place in such a directory where nothing is. -/
  | vacant
  /-- A place of the system, by the names on the way from its root. -/
  | system (names : List String)
deriving DecidableEq, Repr

namespace Place

def nullDevice : Place := .system ["dev", "null"]

def standardInput : Place := .system ["dev", "stdin"]

def standardOutput : Place := .system ["dev", "stdout"]

def standardError : Place := .system ["dev", "stderr"]

def temporary : List String := ["tmp"]

def systemDirectories : List (List String) :=
  [[], ["bin"], ["dev"], ["etc"], ["home"], ["lib"], ["opt"], ["proc"], ["root"], ["run"], ["sbin"],
    ["sys"], temporary, ["usr"], ["var"]]

end Place

namespace Directory

def hasBelow (d : Directory) (names : List String) : Bool :=
  let front := names.foldr (fun name rest => name ++ "/" ++ rest) ""
  (OrderedMap.keys d).any fun key => front.toList.isPrefixOf key.toList

def isDirectory (d : Directory) : Place → Bool
  | .inside names => names.isEmpty || d.hasBelow names
  | .around => true
  | .vacant => false
  | .system names => Place.systemDirectories.contains names

def step (d : Directory) (place : Place) (part : String) : Option Place :=
  if !d.isDirectory place then none
  else if part = "" || part = "." then some place
  else match place with
    | .inside names =>
      if part ≠ ".." then some (.inside (names ++ [part]))
      else some (if names.isEmpty then .around else .inside names.dropLast)
    | .around => some (if part = ".." then .around else .vacant)
    | .vacant => none
    | .system names => some (.system (if part = ".." then names.dropLast else names ++ [part]))

/-- Paths are shorter than this, in bytes. -/
def pathLimit : Nat := 4096

/-- Names are no longer than this, in bytes. -/
def nameLimit : Nat := 255

def place? (d : Directory) (path : String) : Option Place :=
  let parts := (path.toList.splitOn '/').map String.ofList
  if path.toList.contains (Char.ofNat 0) || pathLimit ≤ path.utf8ByteSize ||
      parts.any (nameLimit < ·.utf8ByteSize) then none
  else parts.foldlM d.step (if FilePath.isAbsolute path then .system [] else .inside [])

def fileName? (d : Directory) (path : String) : Option String :=
  match d.place? path with
  | some (.inside names) => some ("/".intercalate names)
  | _ => none

def source (d : Directory) (path : String) : Source :=
  match d.place? path with
  | none => .nothing
  | some place =>
    if d.isDirectory place then .unreadable
    else if place = .nullDevice then .text ""
    else if place = .standardInput then .standardInput
    else match (d.fileName? path).bind (OrderedMap.get? d) with
      | some text => .text text
      | none => .nothing

def canCreate (d : Directory) (path : String) : Bool :=
  match d.place? path with
  | none => false
  | some place =>
    !d.isDirectory place && match place with
      | .inside _ | .vacant => true
      | .around => false
      | .system names =>
        names.dropLast = Place.temporary ||
          [.nullDevice, .standardOutput, .standardError].contains place

/-- What a command finds that is run in the directory with this standard input, if all YAML is in flow style. -/
def surroundings (d : Directory) (input : String) : Surroundings where
  source := d.source
  canCreate := d.canCreate
  input := input
  yaml := .flow

/-- What a command prints that is run in the directory. A document at the place of the standard
output comes first. -/
def printed (d : Directory) (output : Output) : String :=
  match output.written with
  | some document =>
    if d.place? document.path = some .standardOutput then document.text ++ output.printed
    else output.printed
  | none => output.printed

end Directory

structure World where
  files : Directory
  /-- What is left of the standard input. -/
  input : String := ""
  /-- The paths at which a file was created or emptied. -/
  created : List String := []
  printed : String := ""
  /-- What was printed to the standard error. -/
  complaints : String := ""

namespace World

def create (path : String) (w : World) : World :=
  { w with
    files := match w.files.fileName? path with
      | some name => OrderedMap.insert w.files name ""
      | none => w.files
    created := w.created ++ [path] }

def print (text : String) (w : World) : World := { w with printed := w.printed ++ text }

def append (path text : String) (w : World) : World :=
  if w.files.place? path = some .standardOutput then w.print text
  else match w.files.fileName? path with
    | some name =>
      { w with files := OrderedMap.insert w.files name ((OrderedMap.get? w.files name).getD "" ++ text) }
    | none => w

instance : Host (StateM World) where
  find path := do return (← get).files.source path
  takeInput := modifyGet fun w => (w.input, { w with input := "" })
  create path := modifyGet fun w => if w.files.canCreate path then (true, w.create path) else (false, w)
  append path text := modifyGet fun w => (true, w.append path text)
  print text := modify (print text)
  complain text := modify fun w => { w with complaints := w.complaints ++ text }

end World
end FormSchema
