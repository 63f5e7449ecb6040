import FormSchema.Command.Execution

namespace FormSchema.Main

def readText (file : IO.FS.Handle) : IO Source := do
  try return .text (← file.readToEnd)
  catch _ => return .unreadable

def find (path : String) : IO Source := do
  try readText (← IO.FS.Handle.mk path .read)
  catch _ => return .nothing

def create (path : String) : IO Bool := do
  try
    IO.FS.writeFile path ""
    return true
  catch _ => return false

def append (path text : String) : IO Bool := do
  try
    (← IO.FS.Handle.mk path .append).putStr text
    return true
  catch _ => return false

instance : Host IO where
  find := find
  takeInput := do (← IO.getStdin).readToEnd
  create := create
  append := append
  print := IO.print
  complain := IO.eprint

def run (yaml : YamlPackage) (arguments : List String) : IO UInt32 := Program.run yaml arguments

end FormSchema.Main
