import FormSchema.Proofs.Reachable

/-!
The structure of a schema: the fields by the keys of the sample, their types, and how their values are
laid out. A schema that has followed other samples has the structure of a fresh one, except where a
change of the elements of an array went unseen.
-/
namespace FormSchema
open OrderedMap (keys Distinct)

/-- How the value of a field is laid out. -/
inductive Layout where
  | object
  | array
  | choices
  | plain
deriving DecidableEq, Repr

def FieldType.layout : FieldType → Layout
  | .object => .object
  | .array => .array
  | .multiselect => .choices
  | _ => .plain

private theorem FieldType.layout_eq_array {kind : FieldType} (h : kind.layout = .array) : kind = .array := by
  cases kind <;> first | rfl | cases h

private theorem FieldType.layout_eq_object {kind : FieldType} (h : kind.layout = .object) : kind = .object := by
  cases kind <;> first | rfl | cases h

private theorem layout_infer (sample : Option Json) : (FieldType.infer sample).layout = match DataType.of sample with
    | .array => if elementType sample = none ∨ elementType sample = some .object then .array else .choices
    | .object => .object
    | _ => .plain := by
  match sample with
  | some (.array items) =>
    rw [FieldType.infer, DataType.of]
    dsimp only
    split
    · rename_i hnone
      rw [if_pos (.inl hnone)]
      rfl
    · rename_i hobject
      rw [if_pos (.inr hobject)]
      rfl
    · rename_i type hobject htype
      have hother : ¬ (elementType (some (.array items)) = none ∨
          elementType (some (.array items)) = some .object) := by
        rw [htype]
        simpa using hobject
      rw [if_neg hother]
      rfl
  | some (.string text) =>
    rw [FieldType.infer, FieldType.ofText]
    split
    · rfl
    · split <;> rfl
  | none | some .null | some (.bool _) | some (.int _) | some (.double _) | some (.object _) => rfl

/-- The type of a value and that of its elements decide the layout. -/
theorem layout_infer_congr {a b : Option Json} (htype : DataType.of a = DataType.of b)
    (helements : elementType a = elementType b) :
    (FieldType.infer a).layout = (FieldType.infer b).layout := by
  rw [layout_infer, layout_infer, htype, helements]

private theorem exists_object_of_layout_infer {sample : Option Json} (h : (FieldType.infer sample).layout = .object) :
    ∃ entries, sample = some (.object entries) := by
  match sample with
  | some (.object entries) => exact ⟨entries, rfl⟩
  | some (.array items) =>
    rw [layout_infer] at h
    simp only [DataType.of] at h
    split at h <;> cases h
  | none | some .null | some (.bool _) | some (.int _) | some (.double _) | some (.string _) =>
    rw [layout_infer] at h
    cases h

private theorem dataType_of_layout_infer {sample : Option Json} (h : (FieldType.infer sample).layout = .array) :
    DataType.of sample = .array := by
  rw [layout_infer] at h
  split at h
  · assumption
  · cases h
  · cases h

def Json.Filled (value : Json) : Prop := value ≠ .null ∧ value ≠ .array []

private theorem Json.mergeable_filled : Json.Mergeable Json.Filled where
  empty := by simp [Json.Filled]
  merge _ _ := by simp [Json.Filled]

/-- A sample that is there, without null or an empty array anywhere. -/
structure FilledSample (sample : Option Json) : Prop where
  wellFormed : WellFormedSample sample
  present : sample ≠ none
  filled : ∀ value ∈ sample, value.Everywhere Json.Filled

namespace FilledSample
variable {sample : Option Json}

theorem isNullish (h : FilledSample sample) : FormSchema.isNullish sample = false := by
  match sample with
  | none => exact absurd rfl h.present
  | some .null => exact absurd rfl (h.filled _ rfl).here.1
  | some (.bool _) | some (.int _) | some (.double _) | some (.string _) | some (.array _)
  | some (.object _) => rfl

theorem representative (h : FilledSample sample) : FilledSample (FormSchema.representative sample) := by
  refine ⟨h.wellFormed.representative, ?_, everywhere_representative Json.mergeable_filled h.filled⟩
  unfold FormSchema.representative
  split
  · rename_i items
    split
    · simp
    · intro hnone
      have hempty := List.head?_eq_none_iff.mp hnone
      exact (h.filled _ rfl).here.2 (congrArg Json.array hempty)
  · simp

theorem value {entries : OrderedMap Json} (h : FilledSample (some (.object entries))) {key : String}
    {value : Json} (hvalue : OrderedMap.get? entries key = some value) : FilledSample (some value) where
  wellFormed := h.wellFormed.value hvalue
  present := by simp
  filled := everywhere_value h.filled hvalue

end FilledSample

namespace Item

/-- The same structure: the same type and layout, and the same below under the same keys. -/
inductive SameStructure : Item → Item → Prop
  | intro {a b : Item} (types : a.dataType = b.dataType) (layouts : a.fieldType.layout = b.fieldType.layout)
      (sampled : ∀ key, key ∈ Schema.sampledKeys a.children ↔ key ∈ Schema.sampledKeys b.children)
      (fields : ∀ x ∈ a.children, ∀ y ∈ b.children, x.2.sampleKey = y.2.sampleKey → SameStructure x.2 y.2) :
      SameStructure a b

/-- Somewhere in the item an array has another layout now, and what was recorded of the array before
does not tell. -/
inductive Hides : Option Json → Item → Prop
  | here {sample : Option Json} {item : Item} (type : item.dataType = .array) (value : DataType.of sample = .array)
      (elements : elementTypeChanged sample item.sourceData = false)
      (layout : item.fieldType.layout ≠ (FieldType.infer sample).layout) : Hides sample item
  | field {entries : OrderedMap Json} {item : Item} {entry : String × Item} {value : Json}
      (type : item.dataType = .object) (kind : item.fieldType = .object) (mem : entry ∈ item.children)
      (found : OrderedMap.get? entries entry.2.sampleKey = some value) (inner : Hides (some value) entry.2) :
      Hides (some (.object entries)) item
  | template {sample : Option Json} {item template : Item} (type : item.dataType = .array)
      (kind : item.fieldType = .array) (value : DataType.of sample = .array)
      (elements : elementTypeChanged sample item.sourceData = false)
      (mem : OrderedMap.get? item.children Identifier.arrayItem = some template)
      (inner : Hides (representative sample) template) : Hides sample item

/-- What holds of items that no hand has changed. -/
structure Inferred (item : Item) : Prop extends Sound item where
  chosen : item.isFieldTypeOverridden = false
  layout : ∃ value, item.dataType = DataType.of value ∧ item.fieldType.layout = (FieldType.infer value).layout
  templateKey : item.fieldType = .array → ∀ template,
    OrderedMap.get? item.children Identifier.arrayItem = some template → template.sampleKey = Identifier.arrayItem

/-- Without a kind chosen by hand, an item built anew has the kind of its sample. -/
theorem BuiltFrom.kind_of_not_chosen {ctx : Context} {spec : ItemSpec} {previous : Option Item}
    {sample : Option Json} {item : Item} (h : BuiltFrom ctx spec previous sample item)
    (hspec : spec.kindFor sample = FieldType.infer sample)
    (hprevious : ∀ old, previous = some old → old.isFieldTypeOverridden = false) :
    item.fieldType = FieldType.infer sample := by
  have hchosen : chosenKind previous = none := by
    cases previous with
    | none => rfl
    | some old => simp [chosenKind, hprevious old rfl]
  rw [h.fieldType, hchosen, ← hspec, ItemSpec.kindFor]
  cases spec.fieldType <;> rfl

private theorem reconcile_template_sampleKey {old : Schema} (hold : ∀ template,
      OrderedMap.get? old Identifier.arrayItem = some template → template.sampleKey = Identifier.arrayItem)
    (ctx : Context) (path : String) (sample : Option Json) :
    (reconcile ctx (.template path) (OrderedMap.get? old Identifier.arrayItem) sample).sampleKey =
      Identifier.arrayItem := by
  cases hprevious : OrderedMap.get? old Identifier.arrayItem with
  | none =>
    rw [reconcile_none]
    exact build_sampleKey ..
  | some previous => exact (reconcile_sameField ..).sampleKey.trans (hold previous hprevious)

private theorem templateKey_childrenFor {old : Schema} (hold : ∀ template,
      OrderedMap.get? old Identifier.arrayItem = some template → template.sampleKey = Identifier.arrayItem)
    {ctx : Context} {path : String} {sample : Option Json} {template : Item}
    (h : OrderedMap.get? (childrenFor ctx path .array old sample) Identifier.arrayItem = some template) :
    template.sampleKey = Identifier.arrayItem := by
  rw [childrenFor_array, templateLevel_eq, OrderedMap.get?, if_pos rfl] at h
  rw [← Option.some.inj h]
  exact reconcile_template_sampleKey hold ..

theorem preserved_inferred : Preserved Inferred WellFormedSample
    (fun spec sample => spec.kindFor sample = FieldType.infer sample) fun _ _ => True where
  samples := hereditary_wellFormed
  keyed h := h.level.keyed
  moved n h := ⟨preserved_sound.moved n h.toSound, h.chosen, h.layout, h.templateKey⟩
  kept hsample h _ hfrozen :=
    ⟨preserved_sound.kept hsample h.toSound trivial hfrozen, h.chosen, h.layout, h.templateKey⟩
  refreshed := by
    intro item sample ctx path hsample h _ hmatches
    refine ⟨preserved_sound.refreshed ctx path hsample h.toSound trivial hmatches, h.chosen, h.layout, ?_⟩
    intro hkind template htemplate
    have hkind : item.fieldType = .array := hkind
    change OrderedMap.get? (childrenFor ctx path item.fieldType item.children sample) _ = _ at htemplate
    rw [hkind] at htemplate
    exact templateKey_childrenFor (h.templateKey hkind) htemplate
  rebuilt := by
    intro item sample ctx spec previous hsample hprevious hspec hbuilt
    have hkind := hbuilt.kind_of_not_chosen hspec fun old hold => (hprevious old hold).chosen
    refine ⟨preserved_sound.rebuilt hsample (fun old hold => (hprevious old hold).toSound) trivial hbuilt,
      ?_, ⟨sample, hbuilt.dataType, by rw [hkind]⟩, ?_⟩
    · rw [hbuilt.isFieldTypeOverridden]
      cases previous with
      | none => rfl
      | some old => exact (hprevious old rfl).chosen
    · intro harray template htemplate
      rw [hbuilt.children, harray] at htemplate
      exact templateKey_childrenFor (by simp [OrderedMap.get?]) htemplate
  field _ _ _ _ := rfl
  template _ _ := rfl
  toField _ _ := trivial
  toTemplate _ _ _ _ _ _ := trivial

@[simp] theorem sameStructure_movedTo {a b : Item} {m n : Int} :
    (a.movedTo m).SameStructure (b.movedTo n) ↔ a.SameStructure b := by
  constructor
  · rintro ⟨types, layouts, sampled, fields⟩
    exact .intro types layouts sampled fields
  · rintro ⟨types, layouts, sampled, fields⟩
    exact .intro types layouts sampled fields

private theorem sampledKeys_childrenFor_array {old : Schema} (hold : old.Tidy (some .array))
    (hkey : ∀ template, OrderedMap.get? old Identifier.arrayItem = some template →
      template.sampleKey = Identifier.arrayItem) (ctx : Context) (path : String) (sample : Option Json) :
    Schema.sampledKeys (childrenFor ctx path .array old sample) = [Identifier.arrayItem] := by
  have hcustom := (hold.reconcile_get? ctx.enterArray (.template path) rfl (representative sample)).2
  have hsampled := reconcile_template_sampleKey hkey ctx.enterArray path (representative sample)
  rw [childrenFor_array, templateLevel_eq]
  refine (Schema.sampledKeys_singleton ?_ _).trans (congrArg List.singleton hsampled)
  exact hcustom

/-- The levels of two items of one layout, one that was there before and a fresh one. -/
private theorem sameStructure_children {ctx ctx' : Context} {path path' : String} {kind kind' : FieldType}
    {old : Schema} {sample : Option Json} (hsample : WellFormedSample sample)
    (hkind : kind.layout = (FieldType.infer sample).layout) (hkind' : kind'.layout = (FieldType.infer sample).layout)
    (hold : old.Tidy (some kind))
    (hkey : ∀ template, OrderedMap.get? old Identifier.arrayItem = some template →
      kind = .array → template.sampleKey = Identifier.arrayItem)
    (htemplate : kind = .array → SameStructure (reconcile ctx.enterArray (.template path)
      (OrderedMap.get? old Identifier.arrayItem) (representative sample))
      (build ctx'.enterArray (.template path') (representative sample)))
    (hfields : ∀ entries, sample = some (.object entries) → ∀ key value identifier identifier' previous,
      OrderedMap.get? entries key = some value →
      (∀ field, previous = some field → kind = .object ∧ (identifier, field) ∈ old ∧ field.sampleKey = key) →
      SameStructure (reconcile ctx (.field key identifier path) previous (some value))
        (build ctx' (.field key identifier' path') (some value))) :
    (∀ key, key ∈ Schema.sampledKeys (childrenFor ctx path kind old sample) ↔
      key ∈ Schema.sampledKeys (childrenFor ctx' path' kind' [] sample)) ∧
    ∀ x ∈ childrenFor ctx path kind old sample, ∀ y ∈ childrenFor ctx' path' kind' [] sample,
      x.2.sampleKey = y.2.sampleKey → SameStructure x.2 y.2 := by
  cases hlayout : kind.layout with
  | array =>
    obtain rfl := FieldType.layout_eq_array hlayout
    obtain rfl := FieldType.layout_eq_array (hkind'.trans (hkind.symm.trans hlayout))
    have hthis := sampledKeys_childrenFor_array hold (fun template h => hkey template h rfl) ctx path sample
    have hfresh := sampledKeys_childrenFor_array (.nil _) (by simp [OrderedMap.get?]) ctx' path' sample
    refine ⟨fun key => by rw [hthis, hfresh], fun x hx y hy _ => ?_⟩
    rw [childrenFor_array, templateLevel_eq] at hx hy
    rw [OrderedMap.get?, reconcile_none] at hy
    rw [List.mem_singleton.mp hx, List.mem_singleton.mp hy]
    exact sameStructure_movedTo.mpr (htemplate rfl)
  | object =>
    obtain rfl := FieldType.layout_eq_object hlayout
    obtain rfl := FieldType.layout_eq_object (hkind'.trans (hkind.symm.trans hlayout))
    obtain ⟨entries, rfl⟩ := exists_object_of_layout_infer (hkind.symm.trans hlayout)
    rw [childrenFor_object, childrenFor_object]
    refine ⟨fun key => ?_, fun x hx y hy hsame => ?_⟩
    · rw [(Schema.inStep_reconcileLevel hold.keyed hsample.distinct ctx path).sampled,
        (Schema.inStep_reconcileLevel .nil hsample.distinct ctx' path').sampled]
    · obtain ⟨value, previous, m, hvalue, hprevious, -, hx⟩ := hold.exists_of_mem_reconcileLevel hsample.distinct hx
      obtain ⟨value', none | field, n, hvalue', hnone, -, hy⟩ :=
        (Schema.Tidy.nil none).exists_of_mem_reconcileLevel hsample.distinct hy
      · rw [← hsame, hvalue] at hvalue'
        obtain rfl := Option.some.inj hvalue'
        rw [hx, hy, ← hsame, reconcile_none]
        refine sameStructure_movedTo.mpr (hfields entries rfl _ value _ _ previous hvalue fun field hfield => ?_)
        obtain ⟨hmem, hstands⟩ := hprevious field hfield
        exact ⟨rfl, hmem, (standsFor_iff.mp hstands).2⟩
      · cases (hnone field rfl).1
  | choices | plain =>
    have hother : ∀ {kind : FieldType}, kind.layout = (FieldType.infer sample).layout →
        kind ≠ .array ∧ kind ≠ .object := by
      intro kind hsame
      rw [← hkind, hlayout] at hsame
      refine ⟨?_, ?_⟩ <;> rintro rfl <;> cases hsame
    obtain ⟨harray, hobject⟩ := hother hkind
    obtain ⟨harray', hobject'⟩ := hother hkind'
    obtain rfl := hold.leaf kind rfl harray hobject
    rw [childrenFor_other harray fun heq => absurd heq hobject,
      childrenFor_other harray' fun heq => absurd heq hobject']
    exact ⟨fun _ => .rfl, by simp⟩

private theorem sameStructure_of_children {ctx ctx' : Context} {path : String} {item : Item} {old : Schema}
    {sample : Option Json} {spec' : ItemSpec} (hsample : WellFormedSample sample)
    (htype : item.dataType = DataType.of sample) (hlayout : item.fieldType.layout = (FieldType.infer sample).layout)
    (hchildren : item.children = childrenFor ctx path item.fieldType old sample)
    (hspec' : spec'.kindFor sample = FieldType.infer sample) (hold : old.Tidy (some item.fieldType))
    (hkey : ∀ template, OrderedMap.get? old Identifier.arrayItem = some template →
      item.fieldType = .array → template.sampleKey = Identifier.arrayItem)
    (htemplate : item.fieldType = .array → SameStructure (reconcile ctx.enterArray (.template path)
      (OrderedMap.get? old Identifier.arrayItem) (representative sample))
      (build ctx'.enterArray (.template spec'.sourcePath) (representative sample)))
    (hfields : ∀ entries, sample = some (.object entries) → ∀ key value identifier identifier' previous,
      OrderedMap.get? entries key = some value →
      (∀ field, previous = some field → item.fieldType = .object ∧ (identifier, field) ∈ old ∧ field.sampleKey = key) →
      SameStructure (reconcile ctx (.field key identifier path) previous (some value))
        (build ctx' (.field key identifier' spec'.sourcePath) (some value))) :
    SameStructure item (build ctx' spec' sample) := by
  have hbuilt := build_builtFrom ctx' spec' sample
  have hlayout' : (build ctx' spec' sample).fieldType.layout = (FieldType.infer sample).layout := by
    rw [hbuilt.kind_of_none, hspec']
  obtain ⟨hsampled, hlevel⟩ := sameStructure_children hsample hlayout hlayout' hold hkey htemplate hfields
  rw [← hchildren, ← hbuilt.children] at hsampled hlevel
  exact .intro (htype.trans hbuilt.dataType.symm) (hlayout.trans hlayout'.symm) hsampled hlevel

/-- Reconciliation gives an item the structure of a fresh one, unless the item hides a change. -/
theorem sameStructure_reconcile {sample : Option Json} (hsample : FilledSample sample) {previous : Option Item}
    (hprevious : ∀ old, previous = some old → old.Everywhere Inferred ∧ ¬ old.Hides sample) {spec spec' : ItemSpec}
    (hspec : spec.kindFor sample = FieldType.infer sample) (hspec' : spec'.kindFor sample = FieldType.infer sample)
    (ctx ctx' : Context) : SameStructure (reconcile ctx spec previous sample) (build ctx' spec' sample) := by
  revert ctx ctx' spec' hspec hprevious hsample
  refine reconcile_induction (motive := fun spec previous sample => FilledSample sample →
    (∀ old, previous = some old → old.Everywhere Inferred ∧ ¬ old.Hides sample) → ∀ {spec' : ItemSpec},
    spec.kindFor sample = FieldType.infer sample → spec'.kindFor sample = FieldType.infer sample →
    ∀ ctx ctx', SameStructure (reconcile ctx spec previous sample) (build ctx' spec' sample)) ?_ spec previous sample
  intro spec previous sample ihfield ihtemplate ihfresh hsample hprevious spec' hspec hspec' ctx ctx'
  obtain ⟨item, rfl, hfrozen, heq⟩ | ⟨item, rfl, hmatches, heq⟩ | ⟨-, hbuilt⟩ :=
    reconcile_cases ctx spec previous sample
  · exact absurd hfrozen.1 (by simp [hsample.isNullish])
  · obtain ⟨hitem, hshown⟩ := hprevious item rfl
    have htype : item.dataType = DataType.of sample := by
      rcases hmatches.types with htype | ⟨hnullish, -⟩
      · exact htype.symm
      · rw [hsample.isNullish] at hnullish
        cases hnullish
    have hlayout : item.fieldType.layout = (FieldType.infer sample).layout := by
      by_contra hchanged
      by_cases harray : item.dataType = .array
      · exact hshown (.here harray (htype.symm.trans harray) hmatches.elements hchanged)
      · obtain ⟨value, hvalue, hlayout⟩ := hitem.here.layout
        have hother : DataType.of sample ≠ .array := htype ▸ harray
        have hother' : DataType.of value ≠ .array := hvalue ▸ harray
        refine hchanged (hlayout.trans (layout_infer_congr (hvalue.symm.trans htype) ?_))
        rw [elementType_of_ne_array hother, elementType_of_ne_array hother']
    rw [heq]
    refine sameStructure_of_children hsample.wellFormed htype hlayout rfl hspec' hitem.here.level.toTidy
      (fun template hget hkind => hitem.here.templateKey hkind template hget) (fun hkind => ?_)
      fun entries hentries key value identifier identifier' previous hget hold => ?_
    · have hkind : item.fieldType = .array := hkind
      have harray : DataType.of sample = .array := by
        apply dataType_of_layout_infer
        rw [← hlayout, hkind]
        rfl
      refine ihtemplate item _ rfl hsample.representative (fun template htemplate => ⟨?_, fun hhides => ?_⟩)
        rfl rfl _ _
      · exact hitem.inside _ (OrderedMap.mem_of_get?_eq_some htemplate)
      · exact hshown (.template (htype.trans harray) hkind harray hmatches.elements htemplate hhides)
    · refine ihfield entries key value hentries hget _ previous ((hentries ▸ hsample).value hget)
        (fun field hfield => ?_) rfl rfl ctx ctx'
      obtain ⟨hkind, hmem, hkey⟩ := hold field hfield
      refine ⟨hitem.inside _ hmem, fun hhides => hshown ?_⟩
      subst hentries
      exact .field htype hkind hmem (hkey ▸ hget) hhides
  · have hkind := hbuilt.kind_of_not_chosen hspec fun old hold => (hprevious old hold).1.here.chosen
    refine sameStructure_of_children hsample.wellFormed hbuilt.dataType (congrArg FieldType.layout hkind)
      hbuilt.children hspec' (.nil _) (by simp [OrderedMap.get?]) (fun harray => ?_)
      fun entries hentries key value identifier identifier' previous hget hold => ?_
    · refine ihfresh _ (fun _ => ?_) hsample.representative (by simp) rfl rfl _ _
      rw [hspec, ← hkind, harray]
    · refine ihfield entries key value hentries hget _ previous ((hentries ▸ hsample).value hget)
        (fun field hfield => ?_) rfl rfl ctx ctx'
      cases (hold field hfield).2.1

/-- The item of a reconciled level for a key of the object. -/
private theorem exists_reconciled_of_get? {owner : Option FieldType} {level : Schema} (h : level.Tidy owner)
    {entries : OrderedMap Json} (hentries : Distinct entries) {key : String} {value : Json}
    (hvalue : OrderedMap.get? entries key = some value) (ctx : Context) (path : String) :
    ∃ x ∈ reconcileLevel ctx path level entries, x.2.sampleKey = key ∧ ∃ previous n,
      (∀ old, previous = some old → (x.1, old) ∈ level ∧ old.standsFor key = true) ∧
      (previous = none → key ∉ level.sampledKeys) ∧
      x.2 = (reconcile ctx (.field key x.1 path) previous (some value)).movedTo n := by
  have hkey : key ∈ keys entries := OrderedMap.mem_keys.mpr ⟨value, OrderedMap.mem_of_get?_eq_some hvalue⟩
  rw [← (Schema.inStep_reconcileLevel h.keyed hentries ctx path).sampled] at hkey
  obtain ⟨x, hx, hstands⟩ := Schema.mem_sampledKeys.mp hkey
  obtain ⟨-, rfl⟩ := standsFor_iff.mp hstands
  obtain ⟨value', previous, n, hvalue', hprevious, hnew, heq⟩ := h.exists_of_mem_reconcileLevel hentries hx
  rw [hvalue] at hvalue'
  obtain rfl := Option.some.inj hvalue'
  exact ⟨x, hx, rfl, previous, n, hprevious, fun hnone => (hnew hnone).1, heq⟩

/-- A hidden change of layout stays: the item keeps the old layout, and the fresh one has the new. -/
theorem not_sameStructure_of_hides {sample : Option Json} {item : Item} (h : item.Hides sample)
    (hitem : item.Everywhere Inferred) (hsample : FilledSample sample) {spec' : ItemSpec}
    (hspec' : spec'.kindFor sample = FieldType.infer sample) (ctx ctx' : Context) (spec : ItemSpec) :
    ¬ SameStructure (reconcile ctx spec (some item) sample) (build ctx' spec' sample) := by
  induction h generalizing ctx ctx' spec spec' with
  | @here sample item type value elements layout =>
    have hmatches : item.Matches sample := ⟨.inl (value.trans type.symm), elements⟩
    rintro ⟨-, hlayouts, -, -⟩
    rw [reconcile_of_matches hmatches, (build_builtFrom ..).kind_of_none, hspec'] at hlayouts
    exact layout hlayouts
  | @field entries item entry value type kind mem found inner ih =>
    have hmatches : item.Matches (some (.object entries)) := by
      refine ⟨.inl type.symm, ?_⟩
      rfl
    have hlevel := hitem.here.level
    have hbuilt := build_builtFrom ctx' spec' (some (.object entries))
    have hfresh : (build ctx' spec' (some (.object entries))).children =
        reconcileLevel ctx' spec'.sourcePath [] entries := by
      rw [hbuilt.children, hbuilt.kind_of_none, hspec']
      rfl
    rintro ⟨-, -, -, hfields⟩
    rw [hmatches.children_reconcile_object kind, hfresh] at hfields
    obtain ⟨x, hx, hxkey, previous, m, hprevious, hnew, hxeq⟩ := exists_reconciled_of_get? hlevel.toTidy
      hsample.wellFormed.distinct found ctx spec.sourcePath
    obtain ⟨y, hy, hykey, none | old, n, hnone, -, hyeq⟩ := exists_reconciled_of_get? (.nil none)
      hsample.wellFormed.distinct found ctx' spec'.sourcePath
    · have hstands := standsFor_iff.mpr ⟨hlevel.sampled entry mem, rfl⟩
      cases previous with
      | none => exact hnew rfl (Schema.mem_sampledKeys.mpr ⟨entry, mem, hstands⟩)
      | some old =>
        obtain ⟨hold, hstands'⟩ := hprevious old rfl
        obtain rfl := hlevel.keyed.eq_of_standsFor hold mem hstands' hstands
        have hsame := hfields x hx y hy (hxkey.trans hykey.symm)
        rw [hxeq, hyeq, reconcile_none] at hsame
        rw [sameStructure_movedTo] at hsame
        exact ih (hitem.inside _ mem) (hsample.value found) rfl ctx ctx' _ hsame
    · cases (hnone old rfl).1
  | @template sample item template type kind value elements mem inner ih =>
    have hmatches : item.Matches sample := ⟨.inl (value.trans type.symm), elements⟩
    have hbuilt := build_builtFrom ctx' spec' sample
    rintro ⟨-, hlayouts, -, hfields⟩
    have harray : (build ctx' spec' sample).fieldType = .array := by
      apply FieldType.layout_eq_array
      rw [← hlayouts, reconcile_of_matches hmatches]
      exact congrArg FieldType.layout kind
    have hfresh : (build ctx' spec' sample).children = [(Identifier.arrayItem,
        (build ctx'.enterArray (.template spec'.sourcePath) (representative sample)).movedTo 0)] := by
      rw [hbuilt.children, harray, childrenFor_array, templateLevel_eq, OrderedMap.get?, reconcile_none]
    rw [hmatches.children_reconcile_array kind mem, hfresh] at hfields
    have hkeys := reconcile_template_sampleKey (hitem.here.templateKey kind) ctx.enterArray spec.sourcePath
      (representative sample)
    rw [mem] at hkeys
    have hfreshKey := build_sampleKey ctx'.enterArray (.template spec'.sourcePath) (representative sample)
    have hsame := hfields _ (List.mem_singleton.mpr rfl) _ (List.mem_singleton.mpr rfl) (hkeys.trans hfreshKey.symm)
    rw [sameStructure_movedTo] at hsame
    exact ih (hitem.inside _ (OrderedMap.mem_of_get?_eq_some mem)) hsample.representative rfl _ _ _ hsame

end Item
end FormSchema
