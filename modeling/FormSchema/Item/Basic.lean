import FormSchema.FieldType
import FormSchema.Identifier

/-!
Schemas: trees of items, one for each field of a form. Siblings have positions, their order of display, apart from
the order they are stored in.
-/
namespace FormSchema

/-- One field. Options that only the form's display reads are kept in `props`. -/
structure Item where
  identifier : String
  /-- The key as the sample has it. -/
  sampleKey : String
  accessor : String
  label : String
  dataType : DataType
  fieldType : FieldType
  /-- The sample value, which may be missing. -/
  sourceData : Option Json
  defaultValue : Option Json
  /-- The fields below, under their identifiers. The elements of an array share one template. -/
  children : List (String × Item)
  /-- The place among the siblings, or -1 for an item that has none yet. -/
  position : Int
  /-- Added by hand; no key of the sample belongs to it. -/
  isCustomField : Bool
  isVisible : Bool
  isRequired : Bool
  isDisabled : Bool
  /-- The kind was chosen by hand and outlasts a change of the sample. -/
  isFieldTypeOverridden : Bool
  props : OrderedMap Json

/-- The items of one level under their identifiers; as a whole, the level of the root. -/
abbrev Schema := OrderedMap Item

def unplaced : Int := -1

def lastPosition : Int := 2147483647

namespace Item

mutual
def height : Item → Nat
  | { children, .. } => levelHeight children
termination_by structural item => item

def levelHeight : List (String × Item) → Nat
  | [] => 0
  | (_, item) :: rest => max (item.height + 1) (levelHeight rest)
termination_by structural items => items
end

theorem height_eq (item : Item) : item.height = levelHeight item.children := by
  cases item; rfl

theorem height_lt_of_get? {level : Schema} {key : String} {item : Item}
    (h : OrderedMap.get? level key = some item) : item.height < levelHeight level := by
  induction level with
  | nil => simp [OrderedMap.get?] at h
  | cons entry rest ih =>
    obtain ⟨first, present⟩ := entry
    simp only [OrderedMap.get?] at h
    simp only [levelHeight]
    split at h
    · cases h; omega
    · have := ih h; omega

end Item

def Schema.root? (schema : Schema) : Option Item := OrderedMap.get? schema Identifier.root

inductive KeyKind where
  | identifier
  | sampleKey
deriving DecidableEq, Repr

def KeyKind.of (kind : KeyKind) (item : Item) : String :=
  match kind with
  | identifier => item.identifier
  | sampleKey => item.sampleKey

inductive KeyFilter where
  | all
  | custom
  /-- Items that stand for a key of the sample. -/
  | sampled
deriving DecidableEq, Repr

def KeyFilter.accepts (filter : KeyFilter) (item : Item) : Bool :=
  match filter with
  | all => true
  | custom => item.isCustomField
  | sampled => !item.isCustomField

namespace Schema

def keysOf (level : Schema) (kind : KeyKind) (filter : KeyFilter) : List String :=
  ((OrderedMap.values level).filter filter.accepts).map kind.of

def identifierFor? (level : Schema) (key : String) : Option String :=
  ((OrderedMap.values level).find? fun item =>
    !item.isCustomField && item.sampleKey = key).map Item.identifier

end Schema

/-- Comes no later than: by position, items without one last. -/
def Item.placedBefore (a b : Item) : Bool :=
  if a.position = unplaced then b.position = unplaced
  else b.position = unplaced || a.position ≤ b.position

namespace Schema

def insertPlaced (entry : String × Item) : Schema → Schema
  | [] => [entry]
  | other :: rest =>
    if entry.2.placedBefore other.2 then entry :: other :: rest
    else other :: insertPlaced entry rest

/-- The entries by position; those at the same one, or at none, in stored order. -/
def byPosition (level : Schema) : Schema := level.foldr insertPlaced []

def lastPlace? (key : String) : List String → Option Nat
  | [] => none
  | k :: rest =>
    match lastPlace? key rest with
    | some n => some (n + 1)
    | none => if k = key then some 0 else none

def numbered (level : Schema) (order : List String) : Schema :=
  level.map fun (key, item) =>
    match lastPlace? key order with
    | some n => (key, { item with position := min n lastPosition })
    | none => (key, item)

/-- Numbers a level anew: the items that were there keep their order, and new ones follow in the
order given. -/
def placed (level : Schema) (new : List String) : Schema :=
  let old := level.filter fun entry => !new.contains entry.1
  level.numbered (OrderedMap.keys (byPosition old) ++ new)

end Schema
end FormSchema
