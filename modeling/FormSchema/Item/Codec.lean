import FormSchema.Item.Basic

namespace FormSchema.Item

/-- The members of a stored item that have a meaning of their own; all others are its `props`. -/
def memberNames : List String :=
  ["identifier", "originalIdentifier", "accessor", "label", "dataType", "fieldType", "sourceData",
    "defaultValue", "children", "position", "isCustomField", "isVisible", "isRequired",
    "isDisabled", "isFieldTypeOverridden"]

def present (name : String) : Option Json → List (String × Json)
  | some value => [(name, value)]
  | none => []

mutual
/-- A missing value and an override that was not made are left out. -/
def toJson : Item → Json
  | item@{ children, .. } => .object <|
    [("identifier", .string item.identifier),
      ("originalIdentifier", .string item.sampleKey),
      ("accessor", .string item.accessor),
      ("label", .string item.label),
      ("dataType", .string item.dataType.name),
      ("fieldType", .string item.fieldType.name)] ++
    present "sourceData" item.sourceData ++
    present "defaultValue" item.defaultValue ++
    [("children", .object (levelToEntries children)),
      ("position", .int item.position),
      ("isCustomField", .bool item.isCustomField),
      ("isVisible", .bool item.isVisible),
      ("isRequired", .bool item.isRequired),
      ("isDisabled", .bool item.isDisabled)] ++
    (if item.isFieldTypeOverridden then [("isFieldTypeOverridden", .bool true)] else []) ++
    item.props
termination_by structural item => item

def levelToEntries : List (String × Item) → List (String × Json)
  | [] => []
  | (key, item) :: rest => (key, item.toJson) :: levelToEntries rest
termination_by structural items => items
end

namespace Member

def required {α : Type} (read : Json → Option α) (members : OrderedMap Json) (name : String) :
    Option α :=
  (OrderedMap.get? members name).bind read

/-- A member that takes a default where it is not given. One that is given has to read. -/
def optional {α : Type} (read : Json → Option α) (default : α) (members : OrderedMap Json)
    (name : String) : Option α :=
  match OrderedMap.get? members name with
  | some value => read value
  | none => some default

def bool? : Json → Option Bool
  | .bool value => some value
  | _ => none

def position? : Json → Option Int
  | .int n => if -2147483648 ≤ n && n ≤ lastPosition then some n else none
  | _ => none

/-- A name is written as a text, or as the only member of an object, with the value null. -/
def named? {α : Type} (ofName? : String → Option α) : Json → Option α
  | .string name => ofName? name
  | .object [(name, .null)] => ofName? name
  | _ => none

end Member

def membersDistinct (members : List (String × Json)) : Bool :=
  memberNames.all fun name => (members.filter (·.1 = name)).length ≤ 1

def ofMembers? (members : List (String × Json)) (children : Schema) : Option Item := do
  if !membersDistinct members then none
  let identifier ← Member.required Json.text? members "identifier"
  let sampleKey ← Member.required Json.text? members "originalIdentifier"
  let accessor ← Member.required Json.text? members "accessor"
  let label ← Member.optional Json.text? "" members "label"
  let dataType ← Member.required (Member.named? DataType.ofName?) members "dataType"
  let fieldType ← Member.required (Member.named? FieldType.ofName?) members "fieldType"
  let position ← Member.required Member.position? members "position"
  let isCustomField ← Member.optional Member.bool? false members "isCustomField"
  let isVisible ← Member.optional Member.bool? true members "isVisible"
  let isRequired ← Member.optional Member.bool? false members "isRequired"
  let isDisabled ← Member.optional Member.bool? false members "isDisabled"
  let isFieldTypeOverridden ← Member.optional Member.bool? false members "isFieldTypeOverridden"
  let others := members.filter fun member => !memberNames.contains member.1
  let sourceData := (OrderedMap.get? members "sourceData").map Json.collapse
  let defaultValue := (OrderedMap.get? members "defaultValue").map Json.collapse
  let props := OrderedMap.ofList (Json.collapseEntries others)
  return { identifier, sampleKey, accessor, label, dataType, fieldType, sourceData,
           defaultValue, children, position, isCustomField, isVisible, isRequired, isDisabled,
           isFieldTypeOverridden, props }

mutual
def ofJson? : Json → Option Item
  | .object members => (childrenOf? members).bind (ofMembers? members)
  | _ => none
termination_by structural value => value

def childrenOf? : List (String × Json) → Option Schema
  | [] => some []
  | (name, value) :: rest => if name = "children" then levelOfJson? value else childrenOf? rest
termination_by structural members => members

/-- The level under these keys; a repeated key takes its last item, at the first one's place. -/
def levelOfJson? : Json → Option Schema
  | .object entries => (itemsOf? entries).map OrderedMap.ofList
  | _ => none
termination_by structural value => value

def itemsOf? : List (String × Json) → Option (List (String × Item))
  | [] => some []
  | (key, value) :: rest =>
    match ofJson? value, itemsOf? rest with
    | some item, some items => some ((key, item) :: items)
    | _, _ => none
termination_by structural entries => entries
end

end Item

namespace Schema

def toJson (schema : Schema) : Json := .object (Item.levelToEntries schema)

def ofJson? (value : Json) : Option Schema := Item.levelOfJson? value

end Schema
end FormSchema
