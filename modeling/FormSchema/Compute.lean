import FormSchema.Path
import FormSchema.Reconcile

namespace FormSchema

/-- The number of object keys in a value. An array counts once, through the plausible object of its
objects or else through its first element. -/
def countFields : Json → Nat
  | .object entries => entries.foldl (fun n entry => n + 1 + countFields entry.2) 0
  | .array items =>
    if items.any Json.isObject then countFields (.object (Json.plausibleObject items))
    else match items with
      | [] => 0
      | first :: _ => countFields first
  | _ => 0
termination_by value => value.height
decreasing_by
  · exact Json.height_lt_of_entry_mem ‹_›
  · rename_i hany
    obtain ⟨item, hmem, -⟩ := List.any_eq_true.mp hany
    have := Json.height_lt_of_mem hmem
    have := Json.entriesHeight_plausibleObject_le items
    simp only [Json.height] at *
    omega
  · exact Json.height_lt_of_mem List.mem_cons_self

def defaultValueProperty : String := "defaultValue"

namespace Item

def hasBinding (item : Item) : Bool := (item.defaultValue.bind Json.text?).any Binding.isBinding

mutual
/-- The paths of the bindings at an item and below it, parents first. -/
def bindingPaths (path : String) : Item → List String
  | item@{ children, .. } =>
    (if item.hasBinding then [path ++ "." ++ defaultValueProperty] else []) ++
      childBindingPaths path children
termination_by structural item => item

def childBindingPaths (path : String) : List (String × Item) → List String
  | [] => []
  | (identifier, item) :: rest =>
    bindingPaths (ItemPath.child path identifier) item ++ childBindingPaths path rest
termination_by structural items => items
end

end Item

namespace Schema

def splitProperty? (path : String) : Option (String × String) :=
  let backwards := path.toList.reverse
  match backwards.dropWhile (· ≠ '.') with
  | [] => none
  | _ :: before =>
    some (String.ofList before.reverse, String.ofList (backwards.takeWhile (· ≠ '.')).reverse)

def isItemProperty (path : String) : Bool :=
  (ItemPath.schemaWord ++ ".").toList.isPrefixOf path.toList

/-- Whether a dynamic path outlasts a change of the schema: it belongs to no item, or to one that is
still there. Those of default values are listed anew. -/
def keepsPath (schema : Schema) (path : String) : Bool :=
  !isItemProperty path ||
    match splitProperty? path with
    | some (itemPath, property) =>
      property ≠ defaultValueProperty && (schema.itemAt itemPath).toOption.isSome
    | none => false

def bindingPaths (schema : Schema) : List String :=
  schema.flatMap fun entry => entry.2.bindingPaths (ItemPath.top entry.1)

/-- The dynamic paths under a schema: those of the current ones that stay, then those of all
bindings; each once. -/
def dynamicPaths (schema : Schema) (current : List String) : List String :=
  (current.filter schema.keepsPath ++ schema.bindingPaths).eraseDups

end Schema

inductive ComputeStatus where
  | unchanged
  | updated
  | limitExceeded
deriving DecidableEq, Repr

def ComputeStatus.name : ComputeStatus → String
  | unchanged => "UNCHANGED"
  | updated => "UPDATED"
  | limitExceeded => "LIMIT_EXCEEDED"

structure Computed where
  status : ComputeStatus
  schema : Schema
  paths : List String

namespace Schema

def defaultWidget : String := "JSONForm1"

def defaultFieldLimit : Nat := 50

/-- A sample that asks for no fields: missing, null or an empty object. -/
def isEmptySample : Option Json → Bool
  | none | some .null | some (.object []) => true
  | _ => false

def recordsSample (schema : Schema) (sample : Json) : Bool :=
  (schema.root?.bind Item.sourceData).any sample.same

/-- The schema and the dynamic paths for a sample. Both stay as they are for an empty sample, for
the recorded one, and for one with too many fields. -/
def compute (widget : String) (fieldLimit : Nat) (sample : Option Json) (previous : Schema)
    (paths : List String) : Except SchemaError Computed :=
  match sample with
  | none => .ok ⟨.unchanged, previous, paths⟩
  | some value =>
    if isEmptySample sample || previous.recordsSample value then .ok ⟨.unchanged, previous, paths⟩
    else if fieldLimit < countFields value then .ok ⟨.limitExceeded, previous, paths⟩
    else (parse widget sample previous).map fun schema =>
      ⟨.updated, schema, schema.dynamicPaths paths⟩

end Schema
end FormSchema
