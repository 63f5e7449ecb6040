import FormSchema.FieldType
import FormSchema.Identifier
import FormSchema.Item.Basic
import FormSchema.Path
import FormSchema.Plausible

namespace FormSchema

structure Context where
  widget : String
  /-- Below an array's template an item describes all elements at once and has no binding. -/
  withinArray : Bool := false
deriving DecidableEq, Repr

def Context.enterArray (ctx : Context) : Context := { ctx with withinArray := true }

structure ItemSpec where
  /-- The key as the sample has it. -/
  key : String
  identifier : String
  /-- The path of the sample value. -/
  sourcePath : String
  /-- The kind, if it is not to be inferred. -/
  fieldType : Option FieldType := none
  isCustomField : Bool := false
deriving DecidableEq, Repr

namespace ItemSpec

def field (key identifier objectPath : String) : ItemSpec :=
  { key, identifier, sourcePath := SourcePath.step objectPath (.name key) }

def template (arrayPath : String) : ItemSpec :=
  { key := Identifier.arrayItem, identifier := Identifier.arrayItem,
    sourcePath := SourcePath.step arrayPath (.index 0) }

def kindFor (spec : ItemSpec) (sample : Option Json) : FieldType :=
  spec.fieldType.getD (FieldType.infer sample)

end ItemSpec

/-- The value that a template is inferred from: the plausible object of an array of objects, the
first element of another array, and an empty object for anything but an array. -/
def representative (sample : Option Json) : Option Json :=
  match sample with
  | some (.array items) =>
    if elementType sample = some .object then some (.object (Json.plausibleObject items))
    else items.head?
  | _ => some (.object [])

def sampleHeight (sample : Option Json) : Nat := (sample.map Json.height).getD 0

theorem sampleHeight_representative_le (sample : Option Json) :
    sampleHeight (representative sample) ≤ sampleHeight sample := by
  unfold representative
  split
  · rename_i items
    split
    · have := Json.entriesHeight_plausibleObject_le items
      simp only [sampleHeight, Option.map_some, Option.getD_some, Json.height]
      omega
    · cases items with
      | nil => simp [sampleHeight]
      | cons first rest =>
        have := Json.height_lt_of_mem (List.mem_cons_self (a := first) (l := rest))
        simp only [sampleHeight, List.head?_cons, Option.map_some, Option.getD_some]
        omega
  · simp [sampleHeight, Json.height, Json.entriesHeight]

/-- The representative of an array with elements nests less deep than the array. -/
theorem sampleHeight_representative_lt {items : List Json} (h : items ≠ []) :
    sampleHeight (representative (some (.array items))) < sampleHeight (some (.array items)) := by
  obtain ⟨first, rest, rfl⟩ := List.exists_cons_of_ne_nil h
  have hfirst := Json.height_lt_of_mem (List.mem_cons_self (a := first) (l := rest))
  unfold representative
  dsimp only
  split
  · have := Json.entriesHeight_plausibleObject_le (first :: rest)
    simp only [sampleHeight, Option.map_some, Option.getD_some, Json.height] at hfirst ⊢
    omega
  · simpa only [sampleHeight, List.head?_cons, Option.map_some, Option.getD_some] using hfirst

namespace Item

/-- The default value of a fresh item: the binding to its sample value, except for custom fields and
below templates. -/
def freshDefault (ctx : Context) (spec : ItemSpec) : Option Json :=
  if spec.isCustomField || ctx.withinArray then none
  else some (.string (Binding.forPath ctx.widget spec.sourcePath))

def fresh (ctx : Context) (spec : ItemSpec) (sample : Option Json) (children : Schema) : Item where
  identifier := spec.identifier
  sampleKey := spec.key
  accessor := spec.key
  label := Title.label spec.key
  dataType := DataType.of sample
  fieldType := spec.kindFor sample
  sourceData := sample
  defaultValue := freshDefault ctx spec
  children := children
  position := unplaced
  isCustomField := spec.isCustomField
  isVisible := true
  isRequired := false
  isDisabled := false
  isFieldTypeOverridden := false
  props := (spec.kindFor sample).defaults

/-- What building takes at most. An array takes one more, since its template may be inferred from a
value that nests as deep. -/
def buildCost (spec : ItemSpec) (sample : Option Json) : Nat :=
  2 * sampleHeight sample + if spec.kindFor sample = .array then 1 else 0

private theorem buildCost_field_lt {key : String} {value : Json} {entries : List (String × Json)}
    (h : (key, value) ∈ entries) (field spec : ItemSpec) :
    buildCost field (some value) < buildCost spec (some (.object entries)) := by
  have := Json.height_lt_of_entry_mem h
  unfold buildCost
  simp only [sampleHeight, Option.map_some, Option.getD_some]
  split <;> omega

theorem buildCost_template_lt {spec : ItemSpec} {sample : Option Json}
    (hkind : spec.kindFor sample = .array) :
    buildCost (.template spec.sourcePath) (representative sample) < buildCost spec sample := by
  have hle := sampleHeight_representative_le sample
  simp only [buildCost, hkind, ↓reduceIte]
  rcases Nat.lt_or_eq_of_le hle with hlt | heq
  · split <;> omega
  · have hother : FieldType.infer (representative sample) ≠ .array := by
      match sample with
      | some (.array []) => simp [representative, elementType, FieldType.infer]
      | some (.array (first :: rest)) =>
        exact absurd heq (Nat.ne_of_lt (sampleHeight_representative_lt (by simp)))
      | none | some .null | some (.bool _) | some (.int _) | some (.double _) | some (.string _)
      | some (.object _) => simp [representative, FieldType.infer]
    simp [ItemSpec.kindFor, ItemSpec.template, hother, heq]

/-- The item for a sample, with everything below it. -/
def build (ctx : Context) (spec : ItemSpec) (sample : Option Json) : Item :=
  fresh ctx spec sample <|
    match _h : spec.kindFor sample with
    | .object =>
      match sample with
      | some (.object entries) =>
        let level : Schema := entries.foldl (fun level entry =>
          let identifier := Identifier.ofKey entry.1 (OrderedMap.keys level)
          OrderedMap.insert level identifier
            (build ctx (.field entry.1 identifier spec.sourcePath) (some entry.2))) []
        Schema.placed level (OrderedMap.keys level)
      | _ => []
    | .array =>
      let item := build ctx.enterArray (.template spec.sourcePath) (representative sample)
      Schema.placed [(Identifier.arrayItem, item)] []
    | _ => []
termination_by buildCost spec sample
decreasing_by
  · exact buildCost_field_lt ‹_› ..
  · exact buildCost_template_lt _h

/-- Adds an item for an entry of the object at a source path, under a free identifier. -/
def addField (ctx : Context) (objectPath : String) (level : Schema) (entry : String × Json) :
    Schema :=
  let identifier := Identifier.ofKey entry.1 (OrderedMap.keys level)
  OrderedMap.insert level identifier
    (build ctx (.field entry.1 identifier objectPath) (some entry.2))

end Item

/-- The item rebuilt as a field of another kind, from its recorded sample or, for a custom field,
from the stand-in of the kind. Identity, label, position and flags stay. -/
def Item.retyped (ctx : Context) (sourcePath : String) (kind : FieldType) (item : Item) : Item :=
  let sample := if item.isCustomField then some kind.standIn else item.sourceData
  let built := Item.build ctx
    { key := item.sampleKey, identifier := item.identifier, sourcePath,
      fieldType := some kind, isCustomField := item.isCustomField } sample
  { built with
    accessor := item.accessor
    label := item.label
    position := item.position
    isVisible := item.isVisible
    isRequired := item.isRequired
    isDisabled := item.isDisabled
    isFieldTypeOverridden := true }

namespace Schema

def retypedAt (widget : String) (kind : FieldType) (schema : Schema) (path : String) :
    Except SchemaError Item := do
  let item ← schema.itemAt path
  let source ← schema.sourcePathAt path
  return item.retyped { widget, withinArray := ItemPath.isWithinArray path } source kind

def retype (widget : String) (kind : FieldType) (schema : Schema) (path : String) :
    Except SchemaError Schema := do
  schema.setItemAt path (← schema.retypedAt widget kind path)

end Schema
end FormSchema
