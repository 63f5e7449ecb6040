import FormSchema.Item.Codec
import FormSchema.Proofs.Level.Keyed
import FormSchema.Proofs.Reordered

namespace FormSchema
open OrderedMap (keys Distinct)

namespace Json

mutual
theorem collapse_wellFormed (value : Json) : value.collapse.WellFormed := by
  match value with
  | .array items =>
    rw [collapse, wellFormed_array_iff]
    exact collapseItems_wellFormed items
  | .object entries =>
    rw [collapse, wellFormed_object_iff]
    exact ⟨OrderedMap.distinct_ofList _, fun entry hentry =>
      collapseEntries_wellFormed entries entry (OrderedMap.mem_ofList hentry)⟩
  | .null | .bool _ | .int _ | .double _ | .string _ => trivial

private theorem collapseItems_wellFormed (items : List Json) : ∀ item ∈ collapseItems items, item.WellFormed := by
  match items with
  | [] => simp [collapseItems]
  | item :: rest =>
    rw [collapseItems]
    exact List.forall_mem_cons.mpr ⟨collapse_wellFormed item, collapseItems_wellFormed rest⟩

private theorem collapseEntries_wellFormed (entries : List (String × Json)) :
    ∀ entry ∈ collapseEntries entries, entry.2.WellFormed := by
  match entries with
  | [] => simp [collapseEntries]
  | (key, value) :: rest =>
    rw [collapseEntries]
    exact List.forall_mem_cons.mpr ⟨collapse_wellFormed value, collapseEntries_wellFormed rest⟩
end

mutual
/-- A value without a repeated key is the one that it is collapsed to. -/
private theorem collapse_eq {value : Json} (h : value.WellFormed) : value.collapse = value := by
  match value with
  | .array items => rw [collapse, collapseItems_eq (wellFormed_array_iff.mp h)]
  | .object entries =>
    obtain ⟨hdistinct, hentries⟩ := wellFormed_object_iff.mp h
    rw [collapse, collapseEntries_eq hentries, hdistinct.ofList_eq]
  | .null | .bool _ | .int _ | .double _ | .string _ => rfl

private theorem collapseItems_eq {items : List Json} (h : ∀ item ∈ items, item.WellFormed) :
    collapseItems items = items := by
  match items with
  | [] => rfl
  | item :: rest =>
    obtain ⟨hitem, hrest⟩ := List.forall_mem_cons.mp h
    rw [collapseItems, collapse_eq hitem, collapseItems_eq hrest]

private theorem collapseEntries_eq {entries : List (String × Json)} (h : ∀ entry ∈ entries, entry.2.WellFormed) :
    collapseEntries entries = entries := by
  match entries with
  | [] => rfl
  | (key, value) :: rest =>
    obtain ⟨hvalue, hrest⟩ := List.forall_mem_cons.mp h
    rw [collapseEntries, collapse_eq hvalue, collapseEntries_eq hrest]
end

private theorem keys_collapseEntries (entries : List (String × Json)) :
    keys (collapseEntries entries) = keys entries := by
  induction entries with
  | nil => rfl
  | cons entry rest ih => rw [collapseEntries, OrderedMap.keys_cons, OrderedMap.keys_cons, ih]

end Json

private theorem DataType.ofName?_name (type : DataType) : ofName? type.name = some type := by
  cases type <;> decide

private theorem FieldType.ofName?_name (kind : FieldType) : ofName? kind.name = some kind := by
  cases kind <;> decide

namespace Item

/-- What the types of its fields ask of an item: no map has a key twice, and the position has 32 bits. -/
structure Representable (item : Item) : Prop where
  sourceData : WellFormedSample item.sourceData
  defaultValue : WellFormedSample item.defaultValue
  children : Distinct item.children
  position : -2147483648 ≤ item.position ∧ item.position ≤ lastPosition
  props : (Json.object item.props).WellFormed

/-- No option has the name of a member that all items have. -/
def Plain (item : Item) : Prop := ∀ name ∈ keys item.props, name ∉ memberNames

instance (item : Item) : Decidable item.Plain :=
  inferInstanceAs (Decidable (∀ name ∈ keys item.props, name ∉ memberNames))

abbrev Storable (item : Item) : Prop := item.Everywhere fun item => item.Representable ∧ item.Plain

/-- The members that all items have, as far as they are written. -/
def named (item : Item) : OrderedMap Json :=
  [("identifier", .string item.identifier),
    ("originalIdentifier", .string item.sampleKey),
    ("accessor", .string item.accessor),
    ("label", .string item.label),
    ("dataType", .string item.dataType.name),
    ("fieldType", .string item.fieldType.name)] ++
  present "sourceData" item.sourceData ++
  present "defaultValue" item.defaultValue ++
  [("children", .object (levelToEntries item.children)),
    ("position", .int item.position),
    ("isCustomField", .bool item.isCustomField),
    ("isVisible", .bool item.isVisible),
    ("isRequired", .bool item.isRequired),
    ("isDisabled", .bool item.isDisabled)] ++
  (if item.isFieldTypeOverridden then [("isFieldTypeOverridden", .bool true)] else [])

private theorem toJson_eq (item : Item) : item.toJson = .object (item.named ++ item.props) := by
  cases item
  rfl

private theorem keys_named_sublist (item : Item) : List.Sublist (keys item.named) memberNames := by
  have hpresent : ∀ name value, List.Sublist (keys (present name value)) [name] := by
    intro name value
    cases value with
    | none => exact List.nil_sublist _
    | some value => exact .refl _
  have hoverridden : List.Sublist (keys (if item.isFieldTypeOverridden then
      [("isFieldTypeOverridden", Json.bool true)] else [])) ["isFieldTypeOverridden"] := by
    split
    · exact .refl _
    · exact List.nil_sublist _
  rw [named, OrderedMap.keys_append, OrderedMap.keys_append, OrderedMap.keys_append, OrderedMap.keys_append]
  exact ((((List.Sublist.refl _).append (hpresent ..)).append (hpresent ..)).append (.refl _)).append hoverridden

private theorem get?_present (name other : String) (value : Option Json) :
    OrderedMap.get? (present name value) other = if name = other then value else none := by
  cases value with
  | none => rw [ite_self]; rfl
  | some value => rfl

/-- What members with a meaning of their own say about an item. -/
structure Describes (members : OrderedMap Json) (item : Item) : Prop where
  identifier : OrderedMap.get? members "identifier" = some (.string item.identifier)
  sampleKey : OrderedMap.get? members "originalIdentifier" = some (.string item.sampleKey)
  accessor : OrderedMap.get? members "accessor" = some (.string item.accessor)
  label : OrderedMap.get? members "label" = some (.string item.label)
  dataType : OrderedMap.get? members "dataType" = some (.string item.dataType.name)
  fieldType : OrderedMap.get? members "fieldType" = some (.string item.fieldType.name)
  sourceData : OrderedMap.get? members "sourceData" = item.sourceData
  defaultValue : OrderedMap.get? members "defaultValue" = item.defaultValue
  children : OrderedMap.get? members "children" = some (.object (levelToEntries item.children))
  position : OrderedMap.get? members "position" = some (.int item.position)
  isCustomField : OrderedMap.get? members "isCustomField" = some (.bool item.isCustomField)
  isVisible : OrderedMap.get? members "isVisible" = some (.bool item.isVisible)
  isRequired : OrderedMap.get? members "isRequired" = some (.bool item.isRequired)
  isDisabled : OrderedMap.get? members "isDisabled" = some (.bool item.isDisabled)
  isFieldTypeOverridden : OrderedMap.get? members "isFieldTypeOverridden" =
    if item.isFieldTypeOverridden then some (.bool true) else none

private theorem get?_overridden (flag : Bool) (name : String) :
    OrderedMap.get? (if flag then [("isFieldTypeOverridden", Json.bool true)] else []) name =
      if "isFieldTypeOverridden" = name then (if flag then some (.bool true) else none) else none := by
  cases flag with
  | false =>
    rw [if_neg Bool.false_ne_true, if_neg Bool.false_ne_true, ite_self]
    rfl
  | true => rfl

private theorem named_describes (item : Item) : Describes item.named item := by
  constructor <;>
    simp only [named, OrderedMap.get?_append, get?_present, get?_overridden, OrderedMap.get?, String.reduceEq,
      ↓reduceIte, Option.none_or, Option.or_none, Option.or_self]

/-- An option never hides a member with a meaning of its own. -/
private theorem Plain.get?_written {item : Item} (h : item.Plain) : ∀ name ∈ memberNames,
    OrderedMap.get? (item.named ++ item.props) name = OrderedMap.get? item.named name := by
  intro name hname
  have hprops : OrderedMap.get? item.props name = none :=
    (OrderedMap.get?_eq_none_iff ..).mpr fun hmem => h name hmem hname
  rw [OrderedMap.get?_append, hprops, Option.or_none]

private theorem distinct_named (item : Item) : Distinct item.named := (keys_named_sublist item).nodup (by decide)

theorem Plain.membersDistinct {item : Item} (h : item.Plain) : membersDistinct (item.named ++ item.props) = true := by
  rw [Item.membersDistinct, List.all_eq_true]
  intro name hname
  have hprops : item.props.filter (fun member => decide (member.1 = name)) = [] := by
    rw [List.filter_eq_nil_iff]
    intro member hmember heq
    exact h _ (OrderedMap.mem_keys_of_mem hmember) (of_decide_eq_true heq ▸ hname)
  rw [List.filter_append, hprops, List.append_nil]
  exact decide_eq_true ((distinct_named item).length_filter_le name)

private theorem Plain.filter_written {item : Item} (h : item.Plain) :
    ((item.named ++ item.props).filter fun member => !memberNames.contains member.1) = item.props := by
  have hnamed : (item.named.filter fun member => !memberNames.contains member.1) = [] := by
    rw [List.filter_eq_nil_iff]
    intro member hmember
    have hmem : member.1 ∈ memberNames := (keys_named_sublist item).subset (OrderedMap.mem_keys_of_mem hmember)
    simp [hmem]
  have hprops : (item.props.filter fun member => !memberNames.contains member.1) = item.props := by
    rw [List.filter_eq_self]
    intro member hmember
    have hother := h _ (OrderedMap.mem_keys_of_mem hmember)
    simp [hother]
  rw [List.filter_append, hnamed, hprops, List.nil_append]

private theorem collapse_sample {sample : Option Json} (h : WellFormedSample sample) :
    sample.map Json.collapse = sample := by
  cases sample with
  | none => rfl
  | some value => exact congrArg some (Json.collapse_eq (h value rfl))

/-- The members of an item give the item. -/
private theorem ofMembers?_written {item : Item} (h : item.Representable) (hplain : item.Plain) :
    ofMembers? (item.named ++ item.props) item.children = some item := by
  obtain ⟨hdistinct, hvalues⟩ := Json.wellFormed_object_iff.mp h.props
  have hprops : OrderedMap.ofList (Json.collapseEntries item.props) = item.props := by
    rw [Json.collapseEntries_eq hvalues, hdistinct.ofList_eq]
  have hposition : Member.position? (.int item.position) = some item.position := by
    simp [Member.position?, h.position]
  have hnamed := item.named_describes
  have hoverridden : Member.optional Member.bool? false (item.named ++ item.props) "isFieldTypeOverridden" =
      some item.isFieldTypeOverridden := by
    rw [Member.optional, hplain.get?_written _ (by decide), hnamed.isFieldTypeOverridden]
    cases item.isFieldTypeOverridden <;> rfl
  have hread := hplain.get?_written
  simp only [memberNames, List.forall_mem_cons] at hread
  rw [ofMembers?, hplain.membersDistinct, hplain.filter_written, hoverridden]
  simp only [Member.required, Member.optional, hread, hnamed.identifier, hnamed.sampleKey, hnamed.accessor,
    hnamed.label, hnamed.dataType, hnamed.fieldType, hnamed.sourceData, hnamed.defaultValue, hnamed.position,
    hnamed.isCustomField, hnamed.isVisible, hnamed.isRequired, hnamed.isDisabled, Option.bind_some,
    Json.text?, Member.named?, DataType.ofName?_name, FieldType.ofName?_name, hposition, Member.bool?,
    collapse_sample h.sourceData, collapse_sample h.defaultValue, hprops, Bool.not_true, Bool.false_eq_true,
    Option.bind_eq_bind, Option.pure_def, ↓reduceIte]
  cases item
  rfl

/-- Of the members of an item, only the one for the children is read as a level. -/
private theorem childrenOf?_eq (members : List (String × Json)) : childrenOf? members =
    match OrderedMap.get? members "children" with
    | some value => levelOfJson? value
    | none => some [] := by
  induction members with
  | nil => rfl
  | cons member rest ih =>
    obtain ⟨name, value⟩ := member
    rw [childrenOf?, OrderedMap.get?]
    by_cases hname : name = "children"
    · rw [if_pos hname, if_pos hname]
    · rw [if_neg hname, if_neg hname, ih]

theorem levelOfJson?_written {level : Schema} (hlevel : Distinct level)
    (h : ∀ entry ∈ level, ofJson? entry.2.toJson = some entry.2) :
    levelOfJson? (.object (levelToEntries level)) = some level := by
  have hitems : ∀ level : List (String × Item), (∀ entry ∈ level, ofJson? entry.2.toJson = some entry.2) →
      itemsOf? (levelToEntries level) = some level := by
    intro level
    induction level with
    | nil => exact fun _ => rfl
    | cons entry rest ih =>
      intro h
      obtain ⟨hentry, hrest⟩ := List.forall_mem_cons.mp h
      rw [levelToEntries, itemsOf?, hentry, ih hrest]
  rw [levelOfJson?, hitems level h, Option.map_some, hlevel.ofList_eq]

/-- What is written for an item is read as the item. -/
theorem ofJson?_toJson {item : Item} (h : item.Storable) : ofJson? item.toJson = some item := by
  induction h with
  | @intro item here inside ih =>
    obtain ⟨hitem, hplain⟩ := here
    have hchildren : childrenOf? (item.named ++ item.props) = some item.children := by
      rw [childrenOf?_eq, hplain.get?_written _ (by decide), item.named_describes.children]
      exact levelOfJson?_written hitem.children ih
    rw [toJson_eq, ofJson?, hchildren]
    exact ofMembers?_written hitem hplain

private theorem position?_eq_some {value : Json} {n : Int} (h : Member.position? value = some n) :
    -2147483648 ≤ n ∧ n ≤ lastPosition := by
  cases value with
  | int m =>
    rw [Member.position?] at h
    split at h
    · rename_i hbounds
      cases h
      simpa using hbounds
    · cases h
  | _ => cases h

private theorem wellFormed_collapse_sample (sample : Option Json) : WellFormedSample (sample.map Json.collapse) := by
  intro value hvalue
  obtain ⟨read, -, rfl⟩ := Option.map_eq_some_iff.mp hvalue
  exact Json.collapse_wellFormed read

/-- The options of an item are its other members, each once. -/
private theorem keys_others (members : List (String × Json)) :
    ∀ name ∈ keys (OrderedMap.ofList
        (Json.collapseEntries (members.filter fun member => !memberNames.contains member.1))),
      name ∉ memberNames := by
  intro name hname
  obtain ⟨value, hvalue⟩ := OrderedMap.mem_keys.mp hname
  have hother := OrderedMap.mem_keys_of_mem (OrderedMap.mem_ofList hvalue)
  rw [Json.keys_collapseEntries] at hother
  obtain ⟨value, hmember⟩ := OrderedMap.mem_keys.mp hother
  simpa using (List.mem_filter.mp hmember).2

/-- What is read for the members of an item is representable and plain. -/
private theorem ofMembers?_eq_some {members : List (String × Json)} {children : Schema} (hchildren : Distinct children)
    {item : Item} (h : ofMembers? members children = some item) :
    item.children = children ∧ item.Representable ∧ item.Plain := by
  rw [ofMembers?] at h
  split at h
  · cases h
  · simp only [Option.bind_eq_bind, Option.bind_eq_some_iff, Option.pure_def, Option.some.injEq] at h
    obtain ⟨_, -, _, -, _, -, _, -, _, -, _, -, position, hposition, _, -, _, -, _, -, _, -, _, -, rfl⟩ := h
    refine ⟨rfl, ⟨?_, ?_, hchildren, ?_, ?_⟩, keys_others members⟩
    · exact wellFormed_collapse_sample _
    · exact wellFormed_collapse_sample _
    · obtain ⟨value, -, hvalue⟩ := Option.bind_eq_some_iff.mp hposition
      exact position?_eq_some hvalue
    · exact Json.wellFormed_object_iff.mpr ⟨OrderedMap.distinct_ofList _, fun entry hentry =>
        Json.collapseEntries_wellFormed _ entry (OrderedMap.mem_ofList hentry)⟩

mutual
private theorem storable_of_ofJson? (value : Json) {item : Item} (h : ofJson? value = some item) : item.Storable := by
  match value with
  | .object members =>
    rw [ofJson?] at h
    obtain ⟨children, hchildren, hitem⟩ := Option.bind_eq_some_iff.mp h
    obtain ⟨hdistinct, hinside⟩ := storable_of_childrenOf? members hchildren
    obtain ⟨rfl, hhere⟩ := ofMembers?_eq_some hdistinct hitem
    exact .intro hhere hinside
  | .null | .bool _ | .int _ | .double _ | .string _ | .array _ => cases h

private theorem storable_of_childrenOf? (members : List (String × Json)) {children : Schema}
    (h : childrenOf? members = some children) : Distinct children ∧ ∀ entry ∈ children, entry.2.Storable := by
  match members with
  | [] =>
    cases h
    exact ⟨List.nodup_nil, by simp⟩
  | (name, value) :: rest =>
    rw [childrenOf?] at h
    split at h
    · exact storable_of_levelOfJson? value h
    · exact storable_of_childrenOf? rest h

private theorem storable_of_levelOfJson? (value : Json) {level : Schema} (h : levelOfJson? value = some level) :
    Distinct level ∧ ∀ entry ∈ level, entry.2.Storable := by
  match value with
  | .object entries =>
    rw [levelOfJson?] at h
    obtain ⟨items, hitems, rfl⟩ := Option.map_eq_some_iff.mp h
    exact ⟨OrderedMap.distinct_ofList items, fun entry hentry =>
      storable_of_itemsOf? entries hitems entry (OrderedMap.mem_ofList hentry)⟩
  | .null | .bool _ | .int _ | .double _ | .string _ | .array _ => cases h

private theorem storable_of_itemsOf? (entries : List (String × Json)) {items : List (String × Item)}
    (h : itemsOf? entries = some items) : ∀ entry ∈ items, entry.2.Storable := by
  match entries with
  | [] =>
    cases h
    simp
  | (key, value) :: rest =>
    rw [itemsOf?] at h
    split at h
    · rename_i item others hitem hothers
      cases h
      exact List.forall_mem_cons.mpr ⟨storable_of_ofJson? value hitem, storable_of_itemsOf? rest hothers⟩
    · cases h
end

end Item

namespace Schema

/-- What the types of all fields ask of a schema. -/
structure Representable (schema : Schema) : Prop where
  top : Distinct schema
  below : ∀ entry ∈ schema, entry.2.Everywhere Item.Representable

/-- No item has an option with the name of a member that all items have. -/
def Plain (schema : Schema) : Prop := ∀ entry ∈ schema, entry.2.Everywhere Item.Plain

instance (schema : Schema) : Decidable schema.Plain :=
  inferInstanceAs (Decidable (∀ entry ∈ schema, entry.2.Everywhere Item.Plain))

theorem ofJson?_toJson {schema : Schema} (h : schema.Representable) (hplain : schema.Plain) :
    ofJson? schema.toJson = some schema :=
  Item.levelOfJson?_written h.top fun entry hentry =>
    Item.ofJson?_toJson ((h.below entry hentry).and (hplain entry hentry))

theorem representable_of_ofJson? {value : Json} {schema : Schema} (h : ofJson? value = some schema) :
    schema.Representable ∧ schema.Plain := by
  obtain ⟨hdistinct, hitems⟩ := Item.storable_of_levelOfJson? value h
  refine ⟨⟨hdistinct, fun entry hentry => ?_⟩, fun entry hentry => ?_⟩
  · exact (hitems entry hentry).imp fun _ hitem => hitem.1
  · exact (hitems entry hentry).imp fun _ hitem => hitem.2

/-- What is written is read back, and what is read once is written and read without a further change. -/
theorem stored_roundTrip :
    (∀ schema : Schema, schema.Representable → schema.Plain → ofJson? schema.toJson = some schema) ∧
    ∀ value schema, ofJson? value = some schema →
      schema.Plain ∧ (ofJson? schema.toJson).map toJson = some schema.toJson := by
  refine ⟨fun schema => ofJson?_toJson, fun value schema h => ?_⟩
  obtain ⟨hrepresentable, hplain⟩ := representable_of_ofJson? h
  refine ⟨hplain, ?_⟩
  rw [ofJson?_toJson hrepresentable hplain]
  rfl

def oddField : Item :=
  { Item.fresh { widget := "Form" } (.field "" "" SourcePath.root) (some .null) [] with
    props := [("dropdown", .object [("label", .null)])] }

def oddItem : Item :=
  { Item.fresh { widget := "Form" } (.template SourcePath.root) none [("children", oddField)] with
    defaultValue := some .null
    position := -2147483648
    isFieldTypeOverridden := true
    props := [("", .null)] }

def oddJson : Json :=
  .object [("a.b", .object [("position", .int 3), ("step", .int 1), ("fieldType", .object [("Select", .null)]),
    ("dataType", .object [("number", .null)]), ("accessor", .string ""), ("identifier", .string "x"),
    ("originalIdentifier", .string ""), ("step", .bool true), ("sourceData", .null)])]

private theorem oddItem_representable : Representable [("a.b", oddItem)] := by
  have hfield : oddField.Representable := by
    constructor <;>
      simp [oddField, Item.fresh, Item.freshDefault, WellFormedSample, Json.WellFormed, Json.EntriesWellFormed,
        Distinct, unplaced, lastPosition]
  have hitem : oddItem.Representable := by
    constructor <;>
      simp [oddItem, Item.fresh, WellFormedSample, Json.WellFormed, Json.EntriesWellFormed, Distinct, lastPosition]
  refine ⟨List.nodup_singleton _, List.forall_mem_singleton.mpr (.intro hitem (List.forall_mem_singleton.mpr ?_))⟩
  exact .intro hfield (List.forall_mem_nil _)

theorem stored_roundTrip_odd :
    (Representable [("a.b", oddItem)] ∧ Plain [("a.b", oddItem)] ∧
      ofJson? (toJson [("a.b", oddItem)]) = some [("a.b", oddItem)]) ∧
    ∃ schema, ofJson? oddJson = some schema ∧ schema.Plain ∧
      (ofJson? schema.toJson).map toJson = some schema.toJson := by
  have hplain : Plain [("a.b", oddItem)] := by decide +kernel
  have hread : (ofJson? oddJson).isSome = true := by decide +kernel
  obtain ⟨schema, hschema⟩ := Option.isSome_iff_exists.mp hread
  exact ⟨⟨oddItem_representable, hplain, stored_roundTrip.1 _ oddItem_representable hplain⟩, schema, hschema,
    stored_roundTrip.2 oddJson schema hschema⟩

end Schema
end FormSchema
