import FormSchema.Proofs.Structure

/-!
The samples of the past. After samples alone, with no edits between, a schema has the structure of its
last sample, unless an array was null when its elements changed; without any null it always has.
-/
namespace FormSchema
open OrderedMap (keys Distinct)

def Json.Present (value : Json) : Prop := value ≠ .null

private theorem Json.mergeable_present : Json.Mergeable Json.Present where
  empty := by simp [Json.Present]
  merge _ _ := by simp [Json.Present]

structure NullFree (sample : Option Json) : Prop where
  wellFormed : WellFormedSample sample
  present : ∀ value ∈ sample, value.Everywhere Json.Present

private theorem hereditary_nullFree : Hereditary NullFree where
  wellFormed h := h.wellFormed
  value h hvalue := ⟨h.wellFormed.value hvalue, everywhere_value h.present hvalue⟩
  representative h := ⟨h.wellFormed.representative, everywhere_representative Json.mergeable_present h.present⟩

private theorem representative_eq_none {sample : Option Json} (h : representative sample = none) :
    sample = some (.array []) := by
  unfold representative at h
  split at h
  · split at h
    · cases h
    · rw [List.head?_eq_none_iff.mp h]
  · cases h

private theorem eq_empty_of_elementType_eq_none {sample : Option Json} (htype : DataType.of sample = .array)
    (h : elementType sample = none) : sample = some (.array []) := by
  match sample with
  | some (.array []) => rfl
  | some (.array (_ :: _)) => cases h

private theorem elementType_eq_of_unchanged {a b : Option Json} (htype : DataType.of a = DataType.of b)
    (h : elementTypeChanged a b = false) : elementType a = elementType b := by
  by_cases harray : DataType.of a = .array
  · match a, b with
    | some (.array _), some (.array _) => simpa [elementTypeChanged] using h
  · have hother : DataType.of b ≠ .array := htype ▸ harray
    rw [elementType_of_ne_array harray, elementType_of_ne_array hother]

namespace Item

/-- The item is as its record asks for, and so is the record of the template. -/
structure Current (item : Item) : Prop extends Inferred item where
  type : item.dataType = DataType.of item.sourceData
  shape : item.fieldType.layout = (FieldType.infer item.sourceData).layout
  templateRecord : item.fieldType = .array → ∀ template,
    OrderedMap.get? item.children Identifier.arrayItem = some template →
      template.sourceData = representative item.sourceData

/-- Such an item notices every change of elements. -/
private theorem Current.not_hides {item : Item} (h : item.Everywhere Current) (sample : Option Json) :
    ¬ item.Hides sample := by
  intro hhides
  induction hhides with
  | here type value elements layout =>
    have htype := value.trans (type.symm.trans h.here.type)
    refine layout (h.here.shape.trans (layout_infer_congr htype ?_).symm)
    exact elementType_eq_of_unchanged htype elements
  | field type kind mem found inner ih => exact ih (h.inside _ mem)
  | template type kind value elements mem inner ih => exact ih (h.inside _ (OrderedMap.mem_of_get?_eq_some mem))

private theorem templateRecord_childrenFor {ctx : Context} {path : String} {old : Schema} {sample : Option Json}
    {template : Item}
    (h : OrderedMap.get? (childrenFor ctx path .array old sample) Identifier.arrayItem = some template) :
    template.sourceData = representative sample := by
  rw [childrenFor_array, templateLevel_eq, OrderedMap.get?, if_pos rfl] at h
  rw [← Option.some.inj h]
  exact reconcile_sourceData ..

private theorem eq_none_of_isNullish {sample : Option Json} (h : NullFree sample)
    (hnullish : isNullish sample = true) : sample = none := by
  match sample with
  | none => rfl
  | some .null => exact absurd rfl (h.present _ rfl).here
  | some (.bool _) | some (.int _) | some (.double _) | some (.string _) | some (.array _)
  | some (.object _) => cases hnullish

/-- Without null, an item has the type of a sample that it fits. -/
private theorem Current.dataType_eq {item : Item} (h : item.Current) {sample : Option Json} (hsample : NullFree sample)
    (hcomes : sample = none → item.sourceData = none) (hmatches : item.Matches sample) :
    item.dataType = DataType.of sample := by
  rcases hmatches.types with htype | ⟨hnullish, -⟩
  · exact htype.symm
  · have hmissing := eq_none_of_isNullish hsample hnullish
    rw [h.type, hcomes hmissing, hmissing]

/-- Without null, a template is told to be empty only if it was before. -/
private theorem Current.template_none {item template : Item} (h : item.Current) {sample : Option Json}
    (htype : item.dataType = DataType.of sample) (hmatches : item.Matches sample) (hkind : item.fieldType = .array)
    (htemplate : OrderedMap.get? item.children Identifier.arrayItem = some template)
    (hmissing : representative sample = none) : template.sourceData = none := by
  have helements := elementType_eq_of_unchanged (htype.symm.trans h.type) hmatches.elements
  rw [representative_eq_none hmissing] at htype helements
  have hrecord := eq_empty_of_elementType_eq_none (h.type.symm.trans htype) helements.symm
  rw [h.templateRecord hkind template htemplate, hrecord]
  rfl

/-- Without null in the samples, items stay current. A sample that is missing was missing before. -/
private theorem preserved_current : Preserved Current NullFree
    (fun spec sample => spec.kindFor sample = FieldType.infer sample)
    fun sample item => sample = none → item.sourceData = none where
  samples := hereditary_nullFree
  keyed h := h.level.keyed
  moved n h := ⟨preserved_inferred.moved n h.toInferred, h.type, h.shape, h.templateRecord⟩
  kept := by
    intro item sample hsample h hcomes hfrozen
    -- No null, so the sample is missing, and then it was before: nothing is left to freeze.
    have hshape := hfrozen.2
    rw [h.type, hcomes (eq_none_of_isNullish hsample hfrozen.1)] at hshape
    cases hshape
  refreshed := by
    intro item sample ctx path hsample h hcomes hmatches
    have htype := h.dataType_eq hsample hcomes hmatches
    have helements := elementType_eq_of_unchanged (htype.symm.trans h.type) hmatches.elements
    refine ⟨preserved_inferred.refreshed ctx path hsample.wellFormed h.toInferred trivial hmatches, htype,
      h.shape.trans (layout_infer_congr (h.type.symm.trans htype) helements.symm), ?_⟩
    intro hkind template htemplate
    have hkind : item.fieldType = .array := hkind
    change OrderedMap.get? (childrenFor ctx path item.fieldType item.children sample) _ = _ at htemplate
    rw [hkind] at htemplate
    exact templateRecord_childrenFor htemplate
  rebuilt := by
    intro item sample ctx spec previous hsample hprevious hspec hbuilt
    have hkind := hbuilt.kind_of_not_chosen hspec fun old hold => (hprevious old hold).chosen
    have hinferred := preserved_inferred.rebuilt hsample.wellFormed
      (fun old hold => (hprevious old hold).toInferred) hspec hbuilt
    refine ⟨hinferred, ?_, ?_, ?_⟩
    · rw [hbuilt.dataType, hbuilt.sourceData]
    · rw [hkind, hbuilt.sourceData]
    · intro harray template htemplate
      rw [hbuilt.children, harray] at htemplate
      rw [hbuilt.sourceData]
      exact templateRecord_childrenFor htemplate
  field _ _ _ _ := rfl
  template _ _ := rfl
  toField _ _ hmissing := by cases hmissing
  toTemplate hsample h hcomes hmatches hkind htemplate hmissing :=
    h.template_none (h.dataType_eq hsample hcomes hmatches) hmatches hkind htemplate hmissing

end Item

/-- The steps that parse samples one after the other, each with the name of its widget. -/
def parses (samples : List (String × OrderedMap Json)) : List Step :=
  samples.map fun sample => .parse sample.1 (some (.object sample.2))

private theorem run_parses_concat (samples : List (String × OrderedMap Json)) (widget : String)
    (entries : OrderedMap Json) :
    run (parses (samples ++ [(widget, entries)])) = (run (parses samples)).parsed widget entries := by
  rw [parses, List.map_append, List.map_singleton, run_concat, Step.apply, Step.attempt, Schema.parse_object]
  rfl

/-- What reconciliation keeps of items holds of all items after any samples. -/
theorem everywhere_run_parses {p : Item → Prop} {good : Option Json → Prop} {built : ItemSpec → Option Json → Prop}
    {comesTo : Option Json → Item → Prop} (hp : Item.Preserved p good built comesTo)
    (hroot : ∀ entries, built Schema.rootSpec (some (.object entries))) {samples : List (String × OrderedMap Json)}
    (h : ∀ sample ∈ samples, good (some (.object sample.2))) :
    ∀ root, (run (parses samples)).root? = some root → root.Everywhere p := by
  induction samples using List.reverseRecOn with
  | nil =>
    intro root hnone
    cases hnone
  | append_singleton samples sample ih =>
    intro root hsome
    have hearlier := ih fun earlier hmem => h earlier (List.mem_append_left _ hmem)
    rw [run_parses_concat, Schema.parsed, Schema.root?_singleton] at hsome
    rw [← Option.some.inj hsome]
    apply hp.everywhere_movedTo
    apply hp.everywhere_reconcile (h sample (by simp))
    · exact fun old hold => ⟨hearlier old hold, hp.toField ..⟩
    · exact hroot _

def numbersThenNull : List (String × OrderedMap Json) :=
  [("Form", [("a", .array [.int 1])]), ("Form", [("a", .null)])]

def objectsAtLast : OrderedMap Json := [("a", .array [.object [("x", .int 1)]])]

/-- The structure after some samples is that of the last one alone, if that one is filled and no array
before it hides a change; and none does if there was no null. -/
theorem run_parses_sameStructure_iff {samples : List (String × OrderedMap Json)}
    (hsamples : ∀ sample ∈ samples, (Json.object sample.2).WellFormed) (widget : String)
    {last : OrderedMap Json} (hlast : (Json.object last).WellFormed)
    (hfilled : (Json.object last).Everywhere Json.Filled) :
    ∃ final scratch : Item, run (parses (samples ++ [(widget, last)])) = [(Identifier.root, final)] ∧
      Schema.parse widget (some (.object last)) [] = .ok [(Identifier.root, scratch)] ∧
      (final.SameStructure scratch ↔
        ∀ root, (run (parses samples)).root? = some root → ¬ root.Hides (some (.object last))) ∧
      ((∀ sample ∈ samples, (Json.object sample.2).Everywhere Json.Present) → final.SameStructure scratch) := by
  have hsample : FilledSample (some (.object last)) :=
    ⟨wellFormedSample_some.mpr hlast, by simp, by simpa using hfilled⟩
  have hinferred := everywhere_run_parses Item.preserved_inferred (fun _ => rfl) fun sample hmem =>
    wellFormedSample_some.mpr (hsamples sample hmem)
  have hiff : Item.SameStructure
      ((Item.reconcile { widget } Schema.rootSpec (run (parses samples)).root? (some (.object last))).movedTo 0)
      ((Item.reconcile { widget } Schema.rootSpec (Schema.root? []) (some (.object last))).movedTo 0) ↔
      ∀ root, (run (parses samples)).root? = some root → ¬ root.Hides (some (.object last)) := by
    have hnone : Schema.root? [] = none := rfl
    rw [Item.sameStructure_movedTo, hnone, Item.reconcile_none]
    constructor
    · intro hsame root hroot hhides
      rw [hroot] at hsame
      exact Item.not_sameStructure_of_hides hhides (hinferred root hroot) hsample rfl _ _ _ hsame
    · intro hshown
      exact Item.sameStructure_reconcile hsample (fun root hroot => ⟨hinferred root hroot, hshown root hroot⟩) rfl rfl _ _
  refine ⟨_, _, run_parses_concat .., Schema.parse_object .., hiff, fun hpresent => hiff.mpr fun root hroot => ?_⟩
  have hnullFree : ∀ sample ∈ samples, NullFree (some (.object sample.2)) := by
    intro sample hmem
    exact ⟨wellFormedSample_some.mpr (hsamples sample hmem), by simpa using hpresent sample hmem⟩
  have hcurrent := everywhere_run_parses Item.preserved_current (fun _ => rfl) hnullFree
  exact Item.Current.not_hides (hcurrent root hroot) _

/-- Without a null between them, objects take the place of the numbers. -/
theorem run_parses_sameStructure_numbersThenObjects : ∃ final scratch : Item,
    run (parses [("Form", [("a", .array [.int 1])]), ("Form", objectsAtLast)]) = [(Identifier.root, final)] ∧
    Schema.parse "Form" (some (.object objectsAtLast)) [] = .ok [(Identifier.root, scratch)] ∧
    final.SameStructure scratch := by
  have hleaf : ∀ p : Json → Prop, (Json.int 1).Everywhere p ↔ p (.int 1) :=
    fun p => Json.everywhere_leaf_iff rfl
  have hwell : ∀ sample ∈ [("Form", [("a", Json.array [.int 1])])], (Json.object sample.2).WellFormed := by
    simp [Json.WellFormed, Json.EntriesWellFormed, Json.ItemsWellFormed, Distinct, keys]
  have hlast : (Json.object objectsAtLast).WellFormed := by
    simp [objectsAtLast, Json.WellFormed, Json.EntriesWellFormed, Json.ItemsWellFormed, Distinct, keys]
  have hfilled : (Json.object objectsAtLast).Everywhere Json.Filled := by
    simp [objectsAtLast, Json.everywhere_object_iff, Json.everywhere_array_iff, hleaf, Json.Filled]
  have hpresent : ∀ sample ∈ [("Form", [("a", Json.array [.int 1])])],
      (Json.object sample.2).Everywhere Json.Present := by
    simp [Json.everywhere_object_iff, Json.everywhere_array_iff, hleaf, Json.Present]
  obtain ⟨final, scratch, hrun, hparse, -, hsame⟩ := run_parses_sameStructure_iff hwell "Form" hlast hfilled
  exact ⟨final, scratch, hrun, hparse, hsame hpresent⟩

private theorem exists_field_of_find? {root : Item} {identifier : String} {found : String × FieldType}
    (h : (Schema.find? [(Identifier.root, root)] [Identifier.root, identifier]).map
      (fun item => (item.sampleKey, item.fieldType)) = some found) :
    ∃ entry ∈ root.children, (entry.2.sampleKey, entry.2.fieldType) = found := by
  obtain ⟨item, hitem, hfound⟩ := Option.map_eq_some_iff.mp h
  obtain ⟨parent, hparent, hchild⟩ := Schema.exists_parent_of_find? hitem
  rw [OrderedMap.get?, if_pos rfl] at hparent
  obtain rfl := Option.some.inj hparent
  exact ⟨(identifier, item), OrderedMap.mem_of_get?_eq_some hchild, hfound⟩

/-- Null between two arrays hides that their elements differ: the field stays a choice of numbers. -/
theorem not_sameStructure_after_null : ¬ ∃ final scratch : Item,
    run (parses (numbersThenNull ++ [("Form", objectsAtLast)])) = [(Identifier.root, final)] ∧
    Schema.parse "Form" (some (.object objectsAtLast)) [] = .ok [(Identifier.root, scratch)] ∧
    final.SameStructure scratch := by
  rintro ⟨final, scratch, hfinal, hscratch, -, -, -, hfields⟩
  have hkept : ((run (parses (numbersThenNull ++ [("Form", objectsAtLast)]))).find? [Identifier.root, "a"]).map
      (fun item => (item.sampleKey, item.fieldType)) = some ("a", .multiselect) := by
    decide +kernel
  have hfresh : (((Schema.parse "Form" (some (.object objectsAtLast)) []).toOption.getD []).find?
      [Identifier.root, "a"]).map (fun item => (item.sampleKey, item.fieldType)) = some ("a", .array) := by
    decide +kernel
  rw [hfinal] at hkept
  rw [hscratch] at hfresh
  obtain ⟨x, hx, hxfound⟩ := exists_field_of_find? hkept
  obtain ⟨y, hy, hyfound⟩ := exists_field_of_find? hfresh
  obtain ⟨hxkey, hxkind⟩ := Prod.mk.inj hxfound
  obtain ⟨hykey, hykind⟩ := Prod.mk.inj hyfound
  obtain ⟨-, hlayouts, -, -⟩ := hfields x hx y hy (hxkey.trans hykey.symm)
  rw [hxkind, hykind] at hlayouts
  cases hlayouts

end FormSchema
