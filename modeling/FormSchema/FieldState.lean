import FormSchema.Item.Basic
import FormSchema.Json.Basic

/-!
The state of form fields, nested the way the form's data is, its stored form, and the state as others see it: under
accessors instead of identifiers, with the flags of the schema. Reading tries the readings of a value in turn: as an
array of states, as the state of one field, as an object of states.
-/
namespace FormSchema

/-- The state of one field that holds no further fields. -/
structure LeafState where
  isDisabled : Bool := false
  isRequired : Bool := false
  isVisible : Bool := true
  isValid : Bool := true
  filterText : Option String := none
deriving DecidableEq, Repr

inductive FieldState where
  | array (elements : List FieldState)
  | leaf (state : LeafState)
  | object (fields : List (String × FieldState))

namespace LeafState

def memberNames : List String := ["isDisabled", "isRequired", "isVisible", "isValid", "filterText"]

def toJson (state : LeafState) : Json := .object <|
  [("isDisabled", .bool state.isDisabled), ("isRequired", .bool state.isRequired),
    ("isVisible", .bool state.isVisible), ("isValid", .bool state.isValid)] ++
  match state.filterText with
  | some text => [("filterText", .string text)]
  | none => []

def flag? (default : Bool) : Option Json → Option Bool
  | none => some default
  | some (.bool value) => some value
  | some _ => none

def text? : Option Json → Option (Option String)
  | none | some .null => some none
  | some (.string text) => some (some text)
  | some _ => none

def ofValues? (isDisabled isRequired isVisible isValid filterText : Option Json) :
    Option LeafState := do
  return { isDisabled := ← flag? false isDisabled
           isRequired := ← flag? false isRequired
           isVisible := ← flag? true isVisible
           isValid := ← flag? true isValid
           filterText := ← text? filterText }

/-- An object with no other members and none of these twice, or at most five values in their
order. -/
def ofJson? : Json → Option LeafState
  | .object members =>
    if members.all (memberNames.contains ·.1) && decide (OrderedMap.Distinct members) then
      let member := OrderedMap.get? members
      ofValues? (member "isDisabled") (member "isRequired") (member "isVisible") (member "isValid")
        (member "filterText")
    else none
  | .array values =>
    if values.length ≤ memberNames.length then
      ofValues? values[0]? values[1]? values[2]? values[3]? values[4]?
    else none
  | _ => none

end LeafState

namespace FieldState

mutual
def toJson : FieldState → Json
  | .array elements => .array (elementsToJson elements)
  | .leaf state => state.toJson
  | .object fields => .object (fieldsToJson fields)
termination_by structural state => state

def elementsToJson : List FieldState → List Json
  | [] => []
  | state :: rest => state.toJson :: elementsToJson rest
termination_by structural states => states

def fieldsToJson : List (String × FieldState) → List (String × Json)
  | [] => []
  | (key, state) :: rest => (key, state.toJson) :: fieldsToJson rest
termination_by structural fields => fields
end

mutual
def ofJson? : Json → Option FieldState
  | .array items =>
    match elementsOf? items with
    | some elements => some (.array elements)
    | none => (LeafState.ofJson? (.array items)).map .leaf
  | .object entries =>
    match LeafState.ofJson? (.object entries) with
    | some state => some (.leaf state)
    | none => (fieldsOf? entries).map fun fields => .object (OrderedMap.ofList fields)
  | _ => none
termination_by structural value => value

def elementsOf? : List Json → Option (List FieldState)
  | [] => some []
  | item :: rest =>
    match ofJson? item, elementsOf? rest with
    | some state, some states => some (state :: states)
    | _, _ => none
termination_by structural items => items

def fieldsOf? : List (String × Json) → Option (List (String × FieldState))
  | [] => some []
  | (key, value) :: rest =>
    match ofJson? value, fieldsOf? rest with
    | some state, some fields => some ((key, state) :: fields)
    | _, _ => none
termination_by structural entries => entries
end

def field? (key : String) : FieldState → Option FieldState
  | .object fields => OrderedMap.get? fields key
  | _ => none

def formName : FieldState → String
  | .array _ => "array"
  | .leaf _ => "leaf"
  | .object _ => "object"

end FieldState

/-- Flags of the schema; validity and filter text of the internal state, which may be missing. -/
def LeafState.project (item : Item) (internal : Option FieldState) : LeafState :=
  let own : LeafState := match internal with
    | some (.leaf state) => state
    | _ => {}
  { isDisabled := item.isDisabled, isRequired := item.isRequired, isVisible := item.isVisible,
    isValid := own.isValid, filterText := own.filterText }

namespace FieldState

mutual
def project (internal : Option FieldState) : Item → FieldState
  | item@{ children, .. } =>
    if item.fieldType = .object then .object (OrderedMap.ofList (projectFields internal children))
    else if item.fieldType = .array then
      match internal with
      | some (.array elements) => .array (projectElements elements children)
      | _ => .array []
    else .leaf (LeafState.project item internal)
termination_by structural item => item

def projectFields (internal : Option FieldState) : List (String × Item) → List (String × FieldState)
  | [] => []
  | (_, item) :: rest =>
    (item.accessor, project (internal.bind (field? item.identifier)) item) ::
      projectFields internal rest
termination_by structural items => items

def projectElements (elements : List FieldState) : List (String × Item) → List FieldState
  | [] => []
  | (key, template) :: rest =>
    if key = Identifier.arrayItem then
      elements.map fun element => project (some element) template
    else projectElements elements rest
termination_by structural items => items
end

/-- The states of a level under accessors. Of items with the same accessor, the last one counts. -/
def projectLevel (level : Schema) (internal : Option FieldState) : OrderedMap FieldState :=
  OrderedMap.ofList (projectFields internal level)

end FieldState
end FormSchema
