import FormSchema.Build
import FormSchema.Item.Basic
import FormSchema.Path

namespace FormSchema

inductive Decision where
  /-- The sample is gone: the item stays as it is. -/
  | keepShape
  /-- The type of the sample or of its elements is another one. -/
  | rebuild
  | unchanged
deriving DecidableEq, Repr

def Decision.between (item : Item) (sample : Option Json) : Decision :=
  let dataType := DataType.of sample
  let bothNullish := dataType.isNullish && item.dataType.isNullish
  if eitherNullish sample item.sourceData && dataType.isNullish && !item.dataType.isNullish then
    .keepShape
  else if (!bothNullish && dataType ≠ item.dataType) ||
      elementTypeChanged sample item.sourceData then
    .rebuild
  else .unchanged

/-- What is built in the place of an item: its kind stays if it was chosen by hand. -/
def ItemSpec.inPlaceOf (spec : ItemSpec) (item : Item) : ItemSpec :=
  let chosen := if item.isFieldTypeOverridden then some item.fieldType else none
  { spec with fieldType := spec.fieldType <|> chosen, isCustomField := item.isCustomField }

namespace Item

def literalDefault (item : Item) : Option Json :=
  item.defaultValue.filter fun value => !value.text?.any Binding.isBinding

/-- Lays the options that differ from the defaults of a kind over other options. -/
def overlayOptions (kind : FieldType) (options base : OrderedMap Json) : OrderedMap Json :=
  options.foldl (fun base option =>
    if (OrderedMap.get? kind.defaults option.1).any option.2.same then base
    else OrderedMap.insert base option.1 option.2) base

/-- A fresh item in the place of another one. Identity, label, flags and a literal default value stay.
Of the options, those of the same kind stay, and under another kind those that the user has changed. -/
def inPlaceOf (built item : Item) : Item :=
  { built with
    identifier := item.identifier
    sampleKey := item.sampleKey
    accessor := item.accessor
    label := item.label
    position := item.position
    isVisible := item.isVisible
    isRequired := item.isRequired
    isDisabled := item.isDisabled
    isFieldTypeOverridden := item.isFieldTypeOverridden
    defaultValue := item.literalDefault <|> built.defaultValue
    props :=
      if built.fieldType = item.fieldType then item.props
      else overlayOptions item.fieldType item.props built.props }

def rebuild (ctx : Context) (spec : ItemSpec) (item : Item) (sample : Option Json) : Item :=
  (build ctx (spec.inPlaceOf item) sample).inPlaceOf item

abbrev Reconciler := Context → ItemSpec → Option Item → Option Json → Item

def dropVanished (level : Schema) (entries : OrderedMap Json) : Schema :=
  let vanished := (level.keysOf .sampleKey .sampled).filter fun key =>
    !OrderedMap.contains entries key
  vanished.foldl (fun level key =>
    match level.identifierFor? key with
    | some identifier => OrderedMap.erase level identifier
    | none => level) level

def updateField (reconcile : Reconciler) (ctx : Context) (objectPath : String)
    (entries : OrderedMap Json) (level : Schema) (key : String) : Schema :=
  match level.identifierFor? key, OrderedMap.get? entries key with
  | some identifier, some value =>
    OrderedMap.insert level identifier
      (reconcile ctx (.field key identifier objectPath) (OrderedMap.get? level identifier)
        (some value))
  | _, _ => level

/-- Reconciles a level with the object at a source path. Items of vanished keys go first and free
their identifiers, items of new keys come after the others, and then those of the remaining keys are
reconciled. Custom fields stay. -/
def reconcileLevelWith (reconcile : Reconciler) (ctx : Context) (objectPath : String)
    (previous : Schema) (entries : OrderedMap Json) : Schema :=
  let known := previous.keysOf .sampleKey .sampled
  let kept := dropVanished previous entries
  let grown := (entries.filter fun entry => !known.contains entry.1).foldl
    (addField ctx objectPath) kept
  let updated := known.foldl (updateField reconcile ctx objectPath entries) grown
  Schema.placed updated ((OrderedMap.keys grown).drop kept.length)

/-- The children of an item of any kind but an array: those of an object item follow an object. -/
def fieldChildren (reconcile : Reconciler) (ctx : Context) (objectPath : String) (kind : FieldType)
    (children : Schema) (sample : Option Json) : Schema :=
  match kind, sample with
  | .object, some (.object entries) => reconcileLevelWith reconcile ctx objectPath children entries
  | _, _ => children

def templateLevel (template : Item) : Schema :=
  Schema.placed [(Identifier.arrayItem, template)] []

mutual
/-- Reconciles an item with a sample. The fields of an object are reconciled as given; the template
of an array, as this item is. -/
def reconcileItemWith (fields : Reconciler) (ctx : Context) (spec : ItemSpec)
    (sample : Option Json) : Item → Item
  | item@{ children, .. } =>
    match Decision.between item sample with
    | .keepShape => { item with sourceData := sample }
    | .rebuild => rebuild ctx spec item sample
    | .unchanged =>
      { item with
        children :=
          if item.fieldType = .array then
            templateLevel (reconcileTemplateWith fields ctx.enterArray (.template spec.sourcePath)
              (representative sample) children)
          else fieldChildren fields ctx spec.sourcePath item.fieldType children sample
        sourceData := sample }
termination_by structural item => item

def reconcileTemplateWith (fields : Reconciler) (ctx : Context) (spec : ItemSpec)
    (sample : Option Json) : List (String × Item) → Item
  | [] => build ctx spec sample
  | (key, item) :: rest =>
    if key = Identifier.arrayItem then reconcileItemWith fields ctx spec sample item
    else reconcileTemplateWith fields ctx spec sample rest
termination_by structural children => children
end

/-- Reconciliation with samples that nest at most so deep. -/
def reconcileWithin : Nat → Reconciler
  | _, ctx, spec, none, sample => build ctx spec sample
  | 0, ctx, spec, some item, sample =>
    reconcileItemWith (fun ctx spec _ sample => build ctx spec sample) ctx spec sample item
  | height + 1, ctx, spec, some item, sample =>
    reconcileItemWith (reconcileWithin height) ctx spec sample item

def reconcile : Reconciler := fun ctx spec previous sample =>
  reconcileWithin (sampleHeight sample) ctx spec previous sample

/-- Reconcilers that treat all values below a height alike. -/
def AgreeBelow (height : Nat) (f g : Reconciler) : Prop :=
  ∀ ctx spec previous value, Json.height value < height →
    f ctx spec previous (some value) = g ctx spec previous (some value)

private theorem reconcileLevelWith_congr {f g : Reconciler} {entries : OrderedMap Json}
    (h : AgreeBelow (Json.entriesHeight entries) f g) (ctx : Context) (objectPath : String)
    (previous : Schema) :
    reconcileLevelWith f ctx objectPath previous entries =
      reconcileLevelWith g ctx objectPath previous entries := by
  have hstep : updateField f ctx objectPath entries = updateField g ctx objectPath entries := by
    funext level key
    unfold updateField
    split
    · rw [h _ _ _ _ (Json.height_lt_of_get? ‹_›)]
    · rfl
  simp only [reconcileLevelWith, hstep]

private theorem fieldChildren_congr {f g : Reconciler} {sample : Option Json}
    (h : AgreeBelow (sampleHeight sample) f g) (ctx : Context) (objectPath : String)
    (kind : FieldType) (children : Schema) :
    fieldChildren f ctx objectPath kind children sample =
      fieldChildren g ctx objectPath kind children sample := by
  unfold fieldChildren
  split
  · exact reconcileLevelWith_congr
      (by simpa only [sampleHeight, Option.map_some, Option.getD_some, Json.height] using h) ..
  · rfl

mutual
private theorem reconcileItemWith_congr {f g : Reconciler} {sample : Option Json}
    (h : AgreeBelow (sampleHeight sample) f g) (ctx : Context) (spec : ItemSpec) (item : Item) :
    reconcileItemWith f ctx spec sample item = reconcileItemWith g ctx spec sample item := by
  match item with
  | item@⟨_, _, _, _, _, _, _, _, children, _, _, _, _, _, _, _⟩ =>
    have htemplate := reconcileTemplateWith_congr (f := f) (g := g)
      (fun _ _ _ _ hvalue =>
        h _ _ _ _ (Nat.lt_of_lt_of_le hvalue (sampleHeight_representative_le sample)))
      ctx.enterArray (.template spec.sourcePath) children
    simp only [reconcileItemWith, htemplate, fieldChildren_congr h]

private theorem reconcileTemplateWith_congr {f g : Reconciler} {sample : Option Json}
    (h : AgreeBelow (sampleHeight sample) f g) (ctx : Context) (spec : ItemSpec)
    (children : List (String × Item)) :
    reconcileTemplateWith f ctx spec sample children =
      reconcileTemplateWith g ctx spec sample children := by
  match children with
  | [] => simp only [reconcileTemplateWith]
  | (key, item) :: rest =>
    simp only [reconcileTemplateWith, reconcileItemWith_congr h ctx spec item,
      reconcileTemplateWith_congr h ctx spec rest]
end

/-- One more level of allowance makes no difference to a sample that does not need it. -/
private theorem reconcileWithin_succ {height : Nat} {sample : Option Json}
    (h : sampleHeight sample ≤ height) (ctx : Context) (spec : ItemSpec) (previous : Option Item) :
    reconcileWithin (height + 1) ctx spec previous sample =
      reconcileWithin height ctx spec previous sample := by
  induction height generalizing sample ctx spec previous with
  | zero =>
    cases previous with
    | none => simp only [reconcileWithin]
    | some item =>
      simp only [reconcileWithin]
      exact reconcileItemWith_congr (fun _ _ _ _ hvalue => by omega) ctx spec item
  | succ height ih =>
    cases previous with
    | none => simp only [reconcileWithin]
    | some item =>
      rw [reconcileWithin, reconcileWithin]
      refine reconcileItemWith_congr (fun ctx spec previous value hvalue => ?_) ctx spec item
      refine ih ?_ ctx spec previous
      simp only [sampleHeight, Option.map_some, Option.getD_some] at h hvalue ⊢
      omega

/-- An allowance beyond the height of the sample makes no difference. -/
theorem reconcileWithin_eq_reconcile {height : Nat} {sample : Option Json}
    (h : sampleHeight sample ≤ height) (ctx : Context) (spec : ItemSpec) (previous : Option Item) :
    reconcileWithin height ctx spec previous sample = reconcile ctx spec previous sample := by
  obtain ⟨more, rfl⟩ := Nat.exists_eq_add_of_le h
  induction more with
  | zero => rfl
  | succ more ih => rw [← Nat.add_assoc, reconcileWithin_succ (by omega), ih (by omega)]

@[simp] theorem reconcile_none (ctx : Context) (spec : ItemSpec) (sample : Option Json) :
    reconcile ctx spec none sample = build ctx spec sample := by
  simp only [reconcile, reconcileWithin]

/-- The fields of an object are reconciled as the object is. -/
private theorem reconcile_some (ctx : Context) (spec : ItemSpec) (item : Item) (sample : Option Json) :
    reconcile ctx spec (some item) sample = reconcileItemWith reconcile ctx spec sample item := by
  rw [← reconcileWithin_eq_reconcile (Nat.le_succ (sampleHeight sample)), reconcileWithin]
  refine reconcileItemWith_congr (fun ctx spec previous value hvalue => ?_) ctx spec item
  refine reconcileWithin_eq_reconcile ?_ ctx spec previous
  simp only [sampleHeight, Option.map_some, Option.getD_some] at hvalue ⊢
  omega

/-- A template is reconciled as any item is. -/
private theorem reconcileTemplateWith_eq (ctx : Context) (spec : ItemSpec) (sample : Option Json)
    (children : Schema) :
    reconcileTemplateWith reconcile ctx spec sample children =
      reconcile ctx spec (OrderedMap.get? children Identifier.arrayItem) sample := by
  induction children with
  | nil => simp only [reconcileTemplateWith, OrderedMap.get?, reconcile_none]
  | cons entry rest ih =>
    obtain ⟨key, item⟩ := entry
    simp only [reconcileTemplateWith, OrderedMap.get?]
    split
    · rw [reconcile_some]
    · exact ih

def reconcileLevel (ctx : Context) (objectPath : String) (previous : Schema)
    (entries : OrderedMap Json) : Schema :=
  reconcileLevelWith reconcile ctx objectPath previous entries

def reconcileArray (ctx : Context) (arrayPath : String) (previous : Schema) (sample : Option Json) :
    Schema :=
  templateLevel (reconcile ctx.enterArray (.template arrayPath)
    (OrderedMap.get? previous Identifier.arrayItem) (representative sample))

/-- An item whose sample has kept its shape: only the sample and the children below are new. -/
def refresh (ctx : Context) (sourcePath : String) (item : Item) (sample : Option Json) : Item :=
  { item with
    children :=
      if item.fieldType = .array then reconcileArray ctx sourcePath item.children sample
      else fieldChildren reconcile ctx sourcePath item.fieldType item.children sample
    sourceData := sample }

/-- The three outcomes of reconciliation. -/
theorem reconcile_eq (ctx : Context) (spec : ItemSpec) (item : Item) (sample : Option Json) :
    reconcile ctx spec (some item) sample =
      match Decision.between item sample with
      | .keepShape => { item with sourceData := sample }
      | .rebuild => rebuild ctx spec item sample
      | .unchanged => refresh ctx spec.sourcePath item sample := by
  rw [reconcile_some]
  cases item
  simp only [reconcileItemWith, reconcileTemplateWith_eq, refresh, reconcileArray]

end Item

namespace Schema

def rootSpec : ItemSpec :=
  { key := Identifier.root, identifier := Identifier.root, sourcePath := SourcePath.root,
    fieldType := some .object }

/-- The schema of a sample, reconciled with a previous one. A missing sample leaves that one as it
is; a sample other than an object has no schema. -/
def parse (widget : String) (sample : Option Json) (previous : Schema) :
    Except SchemaError Schema :=
  match sample with
  | none => .ok previous
  | some (.object entries) =>
    let root := Item.reconcile { widget } rootSpec previous.root? (some (.object entries))
    .ok (Schema.placed [(Identifier.root, root)] [])
  | some _ => .error (.rootNotObject (DataType.of sample))

end Schema
end FormSchema
