import FormSchema.Compute

namespace FormSchema

/-- What the command line asks for. Documents are given by their paths. -/
inductive Command where
  /-- Infers the schema of a sample, reconciled with a previous schema. -/
  | infer (input : String) (schema output : Option String) (widget : String) (fieldLimit : Nat)
    (printPaths : Bool)
  /-- Changes the kind of the field at an item path. -/
  | retype (schema path : String) (kind : FieldType) (widget : String) (output : Option String)
  /-- Prints the path of the sample value of the item at an item path. -/
  | sourcePath (schema path : String)
  /-- Projects a field state onto a schema. -/
  | fieldState (schema : String) (state : Option String)
deriving DecidableEq, Repr

namespace Command

inductive Refusal where
  /-- They ask for help or for the version. -/
  | help
  | misuse
deriving DecidableEq, Repr

/-- A number of 64 bits in decimal digits, with or without a plus in front. -/
def number? (text : String) : Option Nat :=
  let digits := match text.toList with
    | '+' :: rest => rest
    | cs => cs
  if digits.isEmpty || !digits.all Char.isDigit then none
  else
    let n := digits.foldl (fun n c => n * 10 + (c.toNat - '0'.toNat)) 0
    if n < UInt64.size then some n else none

def fieldType (text : String) : Except String FieldType :=
  match FieldType.ofSpelling? text with
  | some kind => .ok kind
  | none => .error <| (SchemaError.unknownFieldType text).message ++ ". Expected one of: " ++
      ", ".intercalate (FieldType.all.map FieldType.name)

/-- What the value of a parameter may be; a switch has none. -/
inductive ValueForm where
  | path
  | text
  | fieldType
  | number
  | switch
deriving DecidableEq, Repr

def ValueForm.accepts (form : ValueForm) (value : String) : Bool :=
  match form with
  | path => value ≠ ""
  | text => true
  | fieldType => (Command.fieldType value).isOk
  | number => (number? value).isSome
  | switch => false

/-- A parameter: `--name` and, for some, the first letter of the name after one hyphen. -/
structure Parameter where
  name : String
  form : ValueForm
  hasLetter : Bool := false
  isRequired : Bool := false
deriving DecidableEq, Repr

inductive Verb where
  | infer
  | retype
  | sourcePath
  | fieldState
deriving DecidableEq, Repr

namespace Verb

def all : List Verb := [infer, retype, sourcePath, fieldState]

def name : Verb → String
  | infer => "infer"
  | retype => "retype"
  | sourcePath => "source-path"
  | fieldState => "field-state"

def ofName? (text : String) : Option Verb := all.find? (·.name = text)

private def schemaParameter : Parameter :=
  { name := "schema", form := .path, hasLetter := true, isRequired := true }

private def pathParameter : Parameter := { name := "path", form := .text, isRequired := true }

private def outputParameter : Parameter := { name := "output", form := .path, hasLetter := true }

private def widgetParameter : Parameter := { name := "widget-name", form := .text }

def parameters : Verb → List Parameter
  | infer =>
    [{ name := "input", form := .path, hasLetter := true, isRequired := true },
      { schemaParameter with isRequired := false }, outputParameter, widgetParameter,
      { name := "field-limit", form := .number }, { name := "print-paths", form := .switch }]
  | retype =>
    [schemaParameter, pathParameter,
      { name := "field-type", form := .fieldType, isRequired := true }, widgetParameter,
      outputParameter]
  | sourcePath => [schemaParameter, pathParameter]
  | fieldState => [schemaParameter, { name := "state", form := .path }]

end Verb

abbrev Values := OrderedMap String

def give (values : Values) (parameter : Parameter) (value : String) : Except Refusal Values :=
  if OrderedMap.contains values parameter.name || !parameter.form.accepts value then .error .misuse
  else .ok (OrderedMap.insert values parameter.name value)

inductive Argument where
  /-- The two hyphens after which no parameters follow. -/
  | divider
  /-- A name after two hyphens, with the text after an equals sign. -/
  | long (name : String) (attached : Option String)
  /-- A letter after one hyphen, with the text behind it. -/
  | letter (c : Char) (attached : List Char)
  | plain

def Argument.of (text : String) : Argument :=
  match text.toList with
  | ['-', '-'] => .divider
  | '-' :: '-' :: rest =>
    let value := match rest.dropWhile (· ≠ '=') with
      | _ :: value => some (String.ofList value)
      | [] => none
    .long (String.ofList (rest.takeWhile (· ≠ '='))) value
  | '-' :: c :: rest => .letter c rest
  | _ => .plain

/-- The parameter that an argument names, and the value attached to it. An equals sign between a
letter and its value does not count. -/
def named? (parameters : List Parameter) : Argument → Option (Parameter × Option String)
  | .long name attached => (parameters.find? (·.name = name)).map fun p => (p, attached)
  | .letter c attached =>
    let value := match attached with
      | [] => none
      | '=' :: value => some (String.ofList value)
      | value => some (String.ofList value)
    (parameters.find? fun p => p.hasLetter && p.name.toList.head? = some c).map fun p => (p, value)
  | _ => none

def Argument.asksHelp : Argument → Bool
  | .long name attached => name = "help" && attached.isNone
  | .letter c _ => c = 'h'
  | _ => false

/-- Reads the arguments after a verb. A value may follow its parameter, unless it looks like one. -/
def readValues (parameters : List Parameter) (values : Values) :
    List String → Except Refusal Values
  | [] => .ok values
  | text :: rest =>
    match Argument.of text with
    | .divider => if rest.isEmpty then .ok values else .error .misuse
    | .plain => .error .misuse
    | argument =>
      if argument.asksHelp then .error .help else
      match named? parameters argument with
      | none => .error .misuse
      | some (parameter, attached) =>
        if parameter.form = .switch then
          if attached.isSome || OrderedMap.contains values parameter.name then .error .misuse
          else readValues parameters (OrderedMap.insert values parameter.name "") rest
        else
          match attached, rest with
          | some value, rest =>
            match give values parameter value with
            | .ok values => readValues parameters values rest
            | .error refusal => .error refusal
          | none, [] => .error .misuse
          | none, value :: rest =>
            match Argument.of value with
            | .plain =>
              match give values parameter value with
              | .ok values => readValues parameters values rest
              | .error refusal => .error refusal
            | _ => .error .misuse

def ofValues? (verb : Verb) (values : Values) : Option Command := do
  let value? := OrderedMap.get? values
  let widget := (value? "widget-name").getD Schema.defaultWidget
  match verb with
  | .infer =>
    let limit := ((value? "field-limit").bind number?).getD Schema.defaultFieldLimit
    return .infer (← value? "input") (value? "schema") (value? "output") widget limit
      (value? "print-paths").isSome
  | .retype =>
    return .retype (← value? "schema") (← value? "path")
      (← (value? "field-type").bind fun text => (fieldType text).toOption) widget (value? "output")
  | .sourcePath => return .sourcePath (← value? "schema") (← value? "path")
  | .fieldState => return .fieldState (← value? "schema") (value? "state")

def helpWord : String := "help"

/-- Whether help is there for the words after the word for help. -/
def hasHelp : List String → Bool
  | [] => true
  | [word] => word = helpWord || (Verb.ofName? word).isSome
  | _ => false

def ofArguments (arguments : List String) : Except Refusal Command :=
  match arguments with
  | [] => .error .misuse
  | word :: rest =>
    match Verb.ofName? word with
    | some verb => do
      let values ← readValues verb.parameters [] rest
      match ofValues? verb values with
      | some command => .ok command
      | none => .error .misuse
    | none =>
      if word = helpWord then .error (if hasHelp rest then .help else .misuse)
      else match Argument.of word with
        | .long name none => .error (if name = helpWord || name = "version" then .help else .misuse)
        | .letter c _ => .error (if c = 'h' || c = 'V' then .help else .misuse)
        | _ => .error .misuse

end Command
end FormSchema
