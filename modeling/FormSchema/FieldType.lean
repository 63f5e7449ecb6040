import FormSchema.Date.Internet
import FormSchema.Json.Basic
import FormSchema.Text.Email

/-!
The types of sample values and the kinds of form fields: how a value is classified, and the kind inferred from it. A
missing value is none.
-/
namespace FormSchema

inductive DataType where
  | string
  | number
  | boolean
  | object
  | array
  | null
  /-- The type of a value that is missing. -/
  | undefined
  | function
deriving DecidableEq, Repr

namespace DataType

def all : List DataType :=
  [string, number, boolean, object, array, null, undefined, function]

def name : DataType → String
  | string => "string"
  | number => "number"
  | boolean => "boolean"
  | object => "object"
  | array => "array"
  | null => "null"
  | undefined => "undefined"
  | function => "function"

def ofName? (text : String) : Option DataType := all.find? (·.name = text)

def isNullish (t : DataType) : Bool := t = null || t = undefined

end DataType

inductive FieldType where
  | array
  | checkbox
  | currencyInput
  | datepicker
  | emailInput
  | multiselect
  | multilineTextInput
  | numberInput
  | object
  | passwordInput
  | phoneNumberInput
  | radioGroup
  | select
  | switch
  | textInput
deriving DecidableEq, Repr

namespace FieldType

def all : List FieldType :=
  [array, checkbox, currencyInput, datepicker, emailInput, multiselect, multilineTextInput,
    numberInput, object, passwordInput, phoneNumberInput, radioGroup, select, switch, textInput]

def name : FieldType → String
  | array => "Array"
  | checkbox => "Checkbox"
  | currencyInput => "Currency Input"
  | datepicker => "Datepicker"
  | emailInput => "Email Input"
  | multiselect => "Multiselect"
  | multilineTextInput => "Multiline Text Input"
  | numberInput => "Number Input"
  | object => "Object"
  | passwordInput => "Password Input"
  | phoneNumberInput => "Phone Number Input"
  | radioGroup => "Radio Group"
  | select => "Select"
  | switch => "Switch"
  | textInput => "Text Input"

def ofName? (text : String) : Option FieldType := all.find? (·.name = text)

def spelling (text : String) : List Char :=
  (text.toList.filter Char.isAlphanum).map Char.toLower

/-- The kind that a text names, however it is capitalized and whatever separates its words. -/
def ofSpelling? (text : String) : Option FieldType :=
  all.find? fun kind => spelling kind.name = spelling text

/-- Kinds whose items own further items. -/
def isContainer (kind : FieldType) : Bool := kind = array || kind = object

private def option (label value : String) : Json :=
  .object [("label", .string label), ("value", .string value)]

/-- The options that a fresh item of a kind starts with. -/
def defaults : FieldType → OrderedMap Json
  | textInput | emailInput | passwordInput | multilineTextInput =>
    [("iconAlign", .string "left"), ("isSpellCheck", .bool false)]
  | numberInput => [("iconAlign", .string "left")]
  | currencyInput =>
    [("currencyCountryCode", .string "USD"), ("decimalsInCurrency", .int 0),
      ("allowCurrencyChange", .bool false)]
  | phoneNumberInput => [("defaultDialCode", .string "+1"), ("allowDialCodeChange", .bool false)]
  | select | multiselect =>
    [("options", .array [option "Blue" "BLUE", option "Green" "GREEN", option "Red" "RED"]),
      ("isFilterable", .bool false), ("serverSideFiltering", .bool false)]
  | switch | checkbox => [("alignWidget", .string "LEFT")]
  | radioGroup => [("options", .array [option "Yes" "Y", option "No" "N"])]
  | datepicker =>
    [("dateFormat", .string "YYYY-MM-DD HH:mm"), ("convertToISO", .bool false),
      ("closeOnSelection", .bool false), ("shortcuts", .bool false),
      ("minDate", .string "1920-12-31T18:30:00.000Z"),
      ("maxDate", .string "2121-12-31T18:29:00.000Z")]
  | array => [("backgroundColor", .string "#FAFAFA"), ("isCollapsible", .bool true)]
  | object => []

def standIn : FieldType → Json
  | numberInput | currencyInput => .int 0
  | switch | checkbox => .bool true
  | multiselect => .array []
  | array => .array [.object []]
  | object => .object []
  | _ => .string ""

end FieldType

def DataType.of : Option Json → DataType
  | none => .undefined
  | some .null => .null
  | some (.bool _) => .boolean
  | some (.int _) | some (.double _) => .number
  | some (.string _) => .string
  | some (.array _) => .array
  | some (.object _) => .object

/-- The type of an array's first element, if the value is an array with elements. -/
def elementType : Option Json → Option DataType
  | some (.array (first :: _)) => some (DataType.of (some first))
  | _ => none

def FieldType.ofText (text : String) : FieldType :=
  if isEmail text then .emailInput else if isDateLike text then .datepicker else .textInput

/-- The kind of field that a value asks for. An array of objects, and an empty one, is a list of
nested forms; other arrays are choices. -/
def FieldType.infer (value : Option Json) : FieldType :=
  match value with
  | some (.array _) =>
    match elementType value with
    | none | some .object => .array
    | some _ => .multiselect
  | some (.object _) => .object
  | some (.int _) | some (.double _) => .numberInput
  | some (.bool _) => .switch
  | some (.string text) => FieldType.ofText text
  | none | some .null => .textInput

def isNullish (value : Option Json) : Bool := (DataType.of value).isNullish

def eitherNullish (current previous : Option Json) : Bool := isNullish current || isNullish previous

def elementTypeChanged (current previous : Option Json) : Bool :=
  match current, previous with
  | some (.array _), some (.array _) => elementType current ≠ elementType previous
  | _, _ => false

end FormSchema
