import FormSchema.Compute
import FormSchema.Item.Codec
import FormSchema.Build

namespace FormSchema

structure Session where
  widget : String
  schema : Schema
  /-- The properties of the widget that hold bindings. -/
  paths : List String

inductive EditError where
  | schema (error : SchemaError)
  /-- What the edit leaves is no item. -/
  | unreadable

namespace Session

def parse (s : Session) (sample : Option Json) : Except SchemaError Session := do
  return { s with schema := ← Schema.parse s.widget sample s.schema }

def compute (s : Session) (fieldLimit : Nat) (sample : Option Json) :
    Except SchemaError (Session × ComputeStatus) := do
  let computed ← Schema.compute s.widget fieldLimit sample s.schema s.paths
  return ({ s with schema := computed.schema, paths := computed.paths }, computed.status)

def retype (s : Session) (kind : FieldType) (path : String) : Except SchemaError Session := do
  return { s with schema := ← s.schema.retype s.widget kind path }

/-- The stored form of an item without some members and with others put in. -/
def editedMembers (item : Item) (unset : List String) (set : OrderedMap Json) : Json :=
  match item.toJson with
  | .object members => .object (set.foldl (fun members member =>
      OrderedMap.insert members member.1 member.2) (unset.foldl OrderedMap.erase members))
  | value => value

def edit (s : Session) (path : String) (unset : List String) (set : OrderedMap Json) :
    Except EditError Session := do
  let item ← (s.schema.itemAt path).mapError .schema
  match Item.ofJson? (editedMembers item unset set) with
  | none => .error .unreadable
  | some edited => return { s with schema := ← (s.schema.setItemAt path edited).mapError .schema }

/-- Adds a custom field below the item at a path, and gives its identifier. -/
def addCustom (s : Session) (path key : String) (kind : Option FieldType) (sample : Option Json) :
    Except SchemaError (Session × String) := do
  let parent ← s.schema.itemAt path
  let identifier := Identifier.ofKey key (OrderedMap.keys parent.children)
  let field := Item.build { widget := s.widget }
    { ItemSpec.field key identifier SourcePath.root with fieldType := kind, isCustomField := true }
    sample
  let children := OrderedMap.insert parent.children identifier field
  let schema ← s.schema.setItemAt path { parent with children }
  return ({ s with schema }, identifier)

end Session
end FormSchema
