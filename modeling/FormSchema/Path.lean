import FormSchema.FieldType
import FormSchema.Item.Basic

/-!
Paths into the sample, written as member expressions (sourceData.rows[0]["first name"]) and evaluated in bindings, and
paths to the items of a schema (schema.__root_schema__.children.city).
-/
namespace FormSchema

inductive PathFault where
  /-- It does not start at the schema. -/
  | noRoot
  /-- No identifier follows the schema. -/
  | noIdentifier
  /-- Something else stands where the children are entered. -/
  | noChildren (found : String)
  /-- No identifier follows where the children are entered. -/
  | noChild
deriving DecidableEq, Repr

def PathFault.message : PathFault → String
  | noRoot => "expected a leading 'schema' segment"
  | noIdentifier => "missing top-level identifier"
  | noChildren found => "expected 'children' but found '" ++ found ++ "'"
  | noChild => "'children' must be followed by an identifier"

inductive SchemaError where
  | rootNotObject (found : DataType)
  | itemNotFound (path : String)
  | invalidItemPath (path : String) (fault : PathFault)
  | unknownFieldType (text : String)
deriving DecidableEq, Repr

def SchemaError.message : SchemaError → String
  | rootNotObject found => "Source data root must be an object but found " ++ found.name
  | itemNotFound path => "No schema item found at '" ++ path ++ "'"
  | invalidItemPath path fault =>
    "Malformed schema item path '" ++ path ++ "': " ++ fault.message
  | unknownFieldType text => "Unknown field type '" ++ text ++ "'"

inductive SourceStep where
  | name (key : String)
  | index (n : Nat)
deriving DecidableEq, Repr

namespace SourcePath

def root : String := "sourceData"

def isNameStart (c : Char) : Bool := c.isAlpha || c = '_' || c = '$'

def isNameChar (c : Char) : Bool := c.isAlphanum || c = '_' || c = '$'

/-- Names that stand after a point; all others are quoted. -/
def isBareName : List Char → Bool
  | [] => false
  | c :: rest => isNameStart c && rest.all isNameChar

def escape (c : Char) : List Char := if c = '\\' || c = '"' then ['\\', c] else [c]

def quote (key : List Char) : List Char := '"' :: key.flatMap escape ++ ['"']

def segment : SourceStep → List Char
  | .name key =>
    if isBareName key.toList then '.' :: key.toList else '[' :: quote key.toList ++ [']']
  | .index n => '[' :: (toString n).toList ++ [']']

def step (base : String) (s : SourceStep) : String := base ++ String.ofList (segment s)

end SourcePath

namespace Binding

/-- The binding of a widget's field to the part of the sample at a source path. -/
def forPath (widget path : String) : String :=
  "\x7b\x7b((sourceData, formData, fieldState) => (" ++ path ++ "))(" ++ widget ++
    ".sourceData, " ++ widget ++ ".formData, " ++ widget ++ ".fieldState)\x7d\x7d"

def closes : List Char → Bool
  | '\x7d' :: '\x7d' :: _ => true
  | _ :: rest => closes rest
  | [] => false

def opens : List Char → Bool
  | '\x7b' :: '\x7b' :: rest => closes rest
  | _ :: rest => opens rest
  | [] => false

/-- Whether a text holds an expression in double braces. -/
def isBinding (text : String) : Bool := opens text.toList

end Binding

namespace ItemPath

def schemaWord : String := "schema"

def childrenWord : String := "children"

def top (identifier : String) : String := schemaWord ++ "." ++ identifier

def child (parent identifier : String) : String :=
  parent ++ "." ++ childrenWord ++ "." ++ identifier

def through (first : String) (rest : List String) : String := rest.foldl child (top first)

def segments (path : String) : List String := (path.toList.splitOn '.').map String.ofList

/-- The identifiers after the first one, each announced by the word for children. -/
def descendants : List String → Except PathFault (List String)
  | [] => .ok []
  | word :: rest =>
    if word = childrenWord then
      match rest with
      | [] => .error .noChild
      | identifier :: rest =>
        if identifier = "" then .error .noChild
        else (descendants rest).map (identifier :: ·)
    else .error (.noChildren word)

def ofSegments : List String → Except PathFault (List String)
  | [] => .error .noRoot
  | word :: rest =>
    if word = schemaWord then
      match rest with
      | [] => .error .noIdentifier
      | identifier :: rest =>
        if identifier = "" then .error .noIdentifier
        else (descendants rest).map (identifier :: ·)
    else .error .noRoot

def identifiers (path : String) : Except SchemaError (List String) :=
  (ofSegments (segments path)).mapError (.invalidItemPath path)

/-- Whether a path enters the template of an array. -/
def isWithinArray (path : String) : Bool := (segments path).contains Identifier.arrayItem

end ItemPath

namespace Schema

def find? (schema : Schema) : List String → Option Item
  | [] => none
  | [identifier] => OrderedMap.get? schema identifier
  | identifier :: rest =>
    match OrderedMap.get? schema identifier with
    | some item => find? item.children rest
    | none => none

def replace (schema : Schema) (replacement : Item) : List String → Schema
  | [] => schema
  | [identifier] => OrderedMap.modify schema identifier fun _ => replacement
  | identifier :: rest =>
    OrderedMap.modify schema identifier fun item =>
      { item with children := replace item.children replacement rest }

def itemAt (schema : Schema) (path : String) : Except SchemaError Item := do
  match schema.find? (← ItemPath.identifiers path) with
  | some item => .ok item
  | none => .error (.itemNotFound path)

def setItemAt (schema : Schema) (path : String) (replacement : Item) :
    Except SchemaError Schema := do
  let identifiers ← ItemPath.identifiers path
  match schema.find? identifiers with
  | some _ => .ok (schema.replace replacement identifiers)
  | none => .error (.itemNotFound path)

/-- The step of the sample that an item under this identifier stands for. A template stands for the
first element. -/
def sourceStep (identifier : String) (item : Item) : SourceStep :=
  if identifier = Identifier.arrayItem then .index 0 else .name item.sampleKey

/-- Follows identifiers down from a level and appends the steps of the items on the way. -/
def sourcePathFrom (level : Schema) (base : String) : List String → Option String
  | [] => some base
  | identifier :: rest =>
    match OrderedMap.get? level identifier with
    | some item =>
      sourcePathFrom item.children (SourcePath.step base (sourceStep identifier item)) rest
    | none => none

/-- The path of the sample value that the item at an item path was inferred from. -/
def sourcePathAt (schema : Schema) (path : String) : Except SchemaError String := do
  let notFound := SchemaError.itemNotFound path
  match ← ItemPath.identifiers path with
  | [] => .error notFound
  | first :: rest =>
    match (OrderedMap.get? schema first).bind
        (fun item => sourcePathFrom item.children SourcePath.root rest) with
    | some source => .ok source
    | none => .error notFound

end Schema
end FormSchema
