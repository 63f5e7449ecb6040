import FormSchema.Proofs.Parsed

namespace FormSchema
open OrderedMap (keys Distinct)

namespace Json

mutual
/-- The value with null for the values inside it whose paths are chosen. A path is the list of keys
from object to object, so no value inside an array has one, and neither has the value itself. -/
def nulled (chosen : List String → Bool) : Json → Json
  | .object entries => .object (nulledEntries chosen entries)
  | value => value

def nulledEntries (chosen : List String → Bool) : List (String × Json) → List (String × Json)
  | [] => []
  | (key, value) :: rest =>
    (key, if chosen [key] then .null else value.nulled fun path => chosen (key :: path)) ::
      nulledEntries chosen rest
end

variable (chosen : List String → Bool)

@[simp] theorem keys_nulledEntries (entries : OrderedMap Json) :
    keys (nulledEntries chosen entries) = keys entries := by
  induction entries with
  | nil => rfl
  | cons entry rest ih => rw [nulledEntries, OrderedMap.keys_cons, OrderedMap.keys_cons, ih]

private theorem get?_nulledEntries (entries : OrderedMap Json) (key : String) :
    OrderedMap.get? (nulledEntries chosen entries) key = (OrderedMap.get? entries key).map fun value =>
      if chosen [key] then .null else value.nulled fun path => chosen (key :: path) := by
  induction entries with
  | nil => rfl
  | cons entry rest ih =>
    obtain ⟨first, value⟩ := entry
    rw [nulledEntries, OrderedMap.get?, OrderedMap.get?]
    by_cases heq : first = key
    · subst heq
      rw [if_pos rfl, if_pos rfl, Option.map_some]
    · rw [if_neg heq, if_neg heq, ih]

end Json

section Sample
variable (chosen : List String → Bool) (sample : Option Json)

private theorem dataType_nulled : DataType.of (sample.map (Json.nulled chosen)) = DataType.of sample := by
  match sample with
  | some (.object entries) | some (.array items) | some (.string text) | some (.int n) | some (.double d)
  | some (.bool b) | some .null | none => simp only [Option.map, Json.nulled, DataType.of]

private theorem representative_nulled : representative (sample.map (Json.nulled chosen)) = representative sample := by
  match sample with
  | some (.object entries) | some (.array items) | some (.string text) | some (.int n) | some (.double d)
  | some (.bool b) | some .null | none => simp only [Option.map, Json.nulled] <;> rfl

private theorem elementTypeChanged_nulled :
    elementTypeChanged (sample.map (Json.nulled chosen)) sample = false ∧
      elementTypeChanged sample (sample.map (Json.nulled chosen)) = false := by
  match sample with
  | some (.array items) => simp [Json.nulled, elementTypeChanged_self]
  | some (.object entries) | some (.string text) | some (.int n) | some (.double d)
  | some (.bool b) | some .null | none => simp [Json.nulled, elementTypeChanged]

end Sample

namespace Item

/-- An object item over an object: its fields stand for the values of the object. -/
def hasLiveFields (item : Item) : Bool := item.fieldType = .object && item.sourceData.any Json.isObject

mutual
/-- The item with null for the recorded samples of the items that stand for chosen values, and with
what is left of their own samples for those above. -/
def nulled (chosen : List String → Bool) : Item → Item
  | item@{ children, .. } =>
    { item with
      children := if item.hasLiveFields then nulledLevel chosen children else children
      sourceData := item.sourceData.map (Json.nulled chosen) }

def nulledLevel (chosen : List String → Bool) : List (String × Item) → List (String × Item)
  | [] => []
  | (identifier, item) :: rest =>
    (identifier,
      if item.isCustomField then item
      else if chosen [item.sampleKey] then item.recording (some .null)
      else item.nulled fun path => chosen (item.sampleKey :: path)) :: nulledLevel chosen rest
end

def nulledField (chosen : List String → Bool) (item : Item) : Item :=
  if item.isCustomField then item
  else if chosen [item.sampleKey] then item.recording (some .null)
  else item.nulled fun path => chosen (item.sampleKey :: path)

section Nulled
variable (chosen : List String → Bool)

private theorem nulledLevel_eq_map (level : Schema) :
    nulledLevel chosen level = level.map fun entry => (entry.1, entry.2.nulledField chosen) := by
  induction level with
  | nil => rfl
  | cons entry rest ih =>
    obtain ⟨identifier, item⟩ := entry
    rw [nulledLevel, ih, List.map_cons, nulledField]

private theorem nulled_eq (item : Item) : item.nulled chosen =
    { item with
      children := if item.hasLiveFields then nulledLevel chosen item.children else item.children
      sourceData := item.sourceData.map (Json.nulled chosen) } := by
  cases item
  rfl

private theorem nulled_of_object {item : Item} {entries : OrderedMap Json} (hkind : item.fieldType = .object)
    (hsample : item.sourceData = some (.object entries)) : item.nulled chosen =
      (item.withChildren (nulledLevel chosen item.children)).recording
        (item.sourceData.map (Json.nulled chosen)) := by
  have hlive : item.hasLiveFields = true := by simp [hasLiveFields, hkind, hsample, Json.isObject]
  rw [nulled_eq, if_pos hlive]
  rfl

private theorem nulled_of_other {item : Item}
    (hobject : item.fieldType = .object → ∀ entries, item.sourceData ≠ some (.object entries)) :
    item.nulled chosen = item.recording (item.sourceData.map (Json.nulled chosen)) := by
  have hlive : ¬ item.hasLiveFields = true := by
    intro hlive
    simp only [hasLiveFields, Bool.and_eq_true, decide_eq_true_eq, Option.any_eq_true] at hlive
    obtain ⟨hkind, value, hsample, hvalue⟩ := hlive
    cases value with
    | object entries => exact hobject hkind entries hsample
    | _ => cases hvalue
  rw [nulled_eq, if_neg hlive]
  rfl

/-- Nothing but the records of samples changes. -/
private theorem nulled_sameField (item : Item) : (item.nulled chosen).SameField item := by
  cases item
  exact ⟨rfl, rfl, rfl, rfl, rfl, rfl, rfl, rfl, rfl, rfl⟩

private theorem nulledField_sameField (item : Item) : (item.nulledField chosen).SameField item := by
  unfold nulledField
  split
  · exact .refl item
  · split
    · exact ⟨rfl, rfl, rfl, rfl, rfl, rfl, rfl, rfl, rfl, rfl⟩
    · exact nulled_sameField ..

end Nulled

/-- What an item records of its sample does not matter, unless it hides a change of the elements. -/
private theorem Settled.reconcile_restored {item : Item} (h : item.Settled) {record : Option Json}
    (helements : elementTypeChanged item.sourceData record = false) (ctx : Context) (spec : ItemSpec) :
    reconcile ctx spec (some (item.recording record)) item.sourceData = item := by
  by_cases hfrozen : item.Frozen item.sourceData
  · have hfrozen' : (item.recording record).Frozen item.sourceData := hfrozen
    rw [reconcile_of_frozen hfrozen', recording_recording, recording_self]
  · have hmatches : (item.recording record).Matches item.sourceData := ⟨(h.matches hfrozen).types, helements⟩
    rw [reconcile_of_matches hmatches]
    show (item.withChildren (childrenFor ctx spec.sourcePath item.fieldType item.children
      item.sourceData)).recording item.sourceData = item
    rw [h.childrenFor_eq hfrozen, withChildren_self, recording_self]

/-- Null in the place of a value leaves a settled item as it is. -/
theorem Settled.reconcile_null {item : Item} (h : item.Settled) (hrecord : item.sourceData ≠ none)
    (ctx : Context) (spec : ItemSpec) :
    reconcile ctx spec (some item) (some .null) = item.recording (some .null) := by
  cases hitem : item.dataType.isNullish with
  | false => exact reconcile_of_frozen ⟨rfl, hitem⟩ ctx spec
  | true =>
    have hpresent : ¬ item.Frozen item.sourceData := by
      rintro ⟨-, hshape⟩
      rw [hitem] at hshape
      cases hshape
    have hnullish : isNullish item.sourceData = true := by
      rcases (h.matches hpresent).types with heq | ⟨hnullish, -⟩
      · rwa [isNullish, heq]
      · exact hnullish
    have hnull : item.sourceData = some .null := by
      cases hsample : item.sourceData with
      | none => exact absurd hsample hrecord
      | some value =>
        rw [hsample] at hnullish
        cases value with
        | null => rfl
        | _ => cases hnullish
    rw [← hnull, recording_self]
    exact h.reconcile_eq ctx spec

private theorem Agrees.matches_nulled {item : Item} (h : item.Agrees item.sourceData)
    (chosen : List String → Bool) : item.Matches (item.sourceData.map (Json.nulled chosen)) := by
  refine ⟨?_, (elementTypeChanged_nulled ..).1⟩
  rw [Agrees, isNullish, dataType_nulled]
  exact h

/-- A settled item follows the nulls in its sample. -/
theorem Settled.reconcile_nulled {item : Item} (h : item.Settled) (chosen : List String → Bool)
    (ctx : Context) (spec : ItemSpec) :
    reconcile ctx spec (some item) (item.sourceData.map (Json.nulled chosen)) = item.nulled chosen := by
  induction h generalizing chosen ctx spec with
  | @frozen item gone =>
    have hfrozen : item.Frozen (item.sourceData.map (Json.nulled chosen)) := by
      rwa [Frozen, isNullish, dataType_nulled]
    rw [reconcile_of_frozen hfrozen, nulled_of_other chosen fun _ => gone.ne_object]
  | @array item template agrees kind children place sample inner ih =>
    have hsettled : item.Settled := .array agrees kind children place sample inner
    have hchildren := hsettled.childrenFor_eq agrees.not_frozen ctx spec.sourcePath
    rw [kind, childrenFor_array, ← representative_nulled chosen, ← childrenFor_array, ← kind] at hchildren
    rw [reconcile_of_matches (agrees.matches_nulled chosen), hchildren, withChildren_self,
      nulled_of_other chosen fun hobject => absurd (kind.symm.trans hobject) (by decide)]
  | @object item entries agrees kind sample level values fields ih =>
    have hlevel := level.of_perm (.of_eq (Json.keys_nulledEntries chosen entries))
    have hfollowed : ∀ entry ∈ item.children,
        followed ctx spec.sourcePath (Json.nulledEntries chosen entries) entry =
          (entry.1, entry.2.nulledField chosen) := by
      intro entry hentry
      cases hcustom : entry.2.isCustomField with
      | true => rw [followed_of_custom hcustom, nulledField, if_pos hcustom]
      | false =>
        obtain ⟨value, hvalue⟩ := level.exists_value hentry hcustom
        have hsource : entry.2.sourceData = some value := (values entry hentry hcustom).symm.trans hvalue
        have hfield := fields entry hentry hcustom
        have hget := Json.get?_nulledEntries chosen entries entry.2.sampleKey
        rw [hvalue, Option.map_some] at hget
        rw [followed_of_value hcustom hget, nulledField, hcustom, if_neg Bool.false_ne_true]
        split
        · rw [hfield.reconcile_null (by simp [hsource])]
        · rw [← ih entry hentry hcustom, hsource, Option.map_some]
    have hchildren : childrenFor ctx spec.sourcePath item.fieldType item.children
        (item.sourceData.map (Json.nulled chosen)) = nulledLevel chosen item.children := by
      rw [kind, sample, Option.map_some, Json.nulled, childrenFor_object, hlevel.reconcileLevel,
        nulledLevel_eq_map]
      exact List.map_congr_left hfollowed
    rw [reconcile_of_matches (agrees.matches_nulled chosen), hchildren, nulled_of_object chosen kind sample]
  | @leaf item agrees harray hobject =>
    have hother : item.fieldType = .object →
        ∀ entries, item.sourceData.map (Json.nulled chosen) ≠ some (.object entries) := by
      intro hkind entries hsample
      obtain ⟨value, hvalue, hnulled⟩ := Option.map_eq_some_iff.mp hsample
      cases value with
      | object fields => exact hobject hkind fields hvalue
      | _ => cases hnulled
    rw [reconcile_of_matches (agrees.matches_nulled chosen), childrenFor_other harray hother, withChildren_self,
      nulled_of_other chosen hobject]

private theorem Settled.reconcile_of_nulled_other {item : Item} (h : item.Settled)
    (hobject : item.fieldType = .object → ∀ entries, item.sourceData ≠ some (.object entries))
    (chosen : List String → Bool) (ctx : Context) (spec : ItemSpec) :
    reconcile ctx spec (some (item.nulled chosen)) item.sourceData = item := by
  rw [nulled_of_other chosen hobject]
  exact h.reconcile_restored (elementTypeChanged_nulled ..).2 ctx spec

/-- A settled item comes back with the values that were replaced. -/
theorem Settled.reconcile_of_nulled {item : Item} (h : item.Settled) (chosen : List String → Bool)
    (ctx : Context) (spec : ItemSpec) :
    reconcile ctx spec (some (item.nulled chosen)) item.sourceData = item := by
  induction h generalizing chosen ctx spec with
  | frozen gone => exact (Settled.frozen gone).reconcile_of_nulled_other (fun _ => gone.ne_object) ..
  | array agrees kind children place sample inner =>
    exact (Settled.array agrees kind children place sample inner).reconcile_of_nulled_other
      (fun hobject => absurd (kind.symm.trans hobject) (by decide)) ..
  | leaf agrees harray hobject => exact (Settled.leaf agrees harray hobject).reconcile_of_nulled_other hobject ..
  | @object item entries agrees kind sample level values fields ih =>
    have hlevel : Schema.InStep (nulledLevel chosen item.children) entries := by
      rw [nulledLevel_eq_map]
      exact level.map (fun _ _ => rfl) (fun entry _ => (nulledField_sameField chosen entry.2).sameIdentity)
        fun entry _ => (nulledField_sameField chosen entry.2).position
    have hfollowed : ∀ entry ∈ item.children, followed ctx spec.sourcePath entries
        (entry.1, entry.2.nulledField chosen) = entry := by
      intro entry hentry
      have hsame := nulledField_sameField chosen entry.2
      cases hcustom : entry.2.isCustomField with
      | true =>
        rw [followed_of_custom (hsame.isCustomField.trans hcustom), nulledField, if_pos hcustom]
      | false =>
        obtain ⟨value, hvalue⟩ := level.exists_value hentry hcustom
        have hsource : entry.2.sourceData = some value := (values entry hentry hcustom).symm.trans hvalue
        rw [← hsame.sampleKey] at hvalue
        rw [followed_of_value (hsame.isCustomField.trans hcustom) hvalue, nulledField, hcustom,
          if_neg Bool.false_ne_true]
        split
        · have hnull : elementTypeChanged entry.2.sourceData (some .null) = false :=
            elementTypeChanged_of_ne_array (by simp)
          rw [← hsource, (fields entry hentry hcustom).reconcile_restored hnull]
        · rw [← hsource, ih entry hentry hcustom]
    have hchildren : childrenFor ctx spec.sourcePath item.fieldType (nulledLevel chosen item.children)
        item.sourceData = item.children := by
      rw [kind, sample, childrenFor_object, hlevel.reconcileLevel, nulledLevel_eq_map, List.map_map]
      exact (List.map_congr_left hfollowed).trans (List.map_id' _)
    have hmatches : ((item.withChildren (nulledLevel chosen item.children)).recording
        (item.sourceData.map (Json.nulled chosen))).Matches item.sourceData :=
      ⟨agrees, (elementTypeChanged_nulled ..).2⟩
    rw [nulled_of_object chosen kind sample, reconcile_of_matches hmatches]
    show (item.withChildren (childrenFor ctx spec.sourcePath item.fieldType (nulledLevel chosen item.children)
      item.sourceData)).recording item.sourceData = item
    rw [hchildren, withChildren_self, recording_self]

end Item

namespace Schema

/-- A parsed schema with null for the recorded samples of the items that stand for chosen values. -/
def nulled (chosen : List String → Bool) (schema : Schema) : Schema :=
  schema.map fun entry => (entry.1, entry.2.nulled chosen)

/-- Values that turn null change the schema in its records of samples only, and it comes back as it
was when they return. -/
theorem parse_nulled {previous : Schema} (hprevious : previous.WellFormed) {entries : OrderedMap Json}
    (hsample : (Json.object entries).WellFormed) (chosen : List String → Bool) (widget : String) :
    ∃ schema, parse widget (some (.object entries)) previous = .ok schema ∧
      parse widget (some ((Json.object entries).nulled chosen)) schema = .ok (schema.nulled chosen) ∧
      parse widget (some (.object entries)) (schema.nulled chosen) = .ok schema := by
  obtain ⟨root, hparse, hsettled, hplace, hsource⟩ := exists_settled_of_parse hprevious hsample widget
  have hthere := hsettled.reconcile_nulled chosen { widget } rootSpec
  have hback := hsettled.reconcile_of_nulled chosen { widget } rootSpec
  rw [hsource] at hthere hback
  refine ⟨_, hparse, ?_, ?_⟩
  · have hposition : (root.nulled chosen).position = 0 :=
      (Item.nulled_sameField chosen root).position.trans hplace
    rw [Json.nulled, parse_object, parsed, root?_singleton]
    rw [Option.map_some, Json.nulled] at hthere
    rw [hthere, ← hposition, Item.movedTo_position]
    rfl
  · have hroot : root? (nulled chosen [(Identifier.root, root)]) = some (root.nulled chosen) :=
      root?_singleton _
    rw [parse_object, parsed, hroot, hback, ← hplace, Item.movedTo_position]

/-- Two chosen values: an array, and a text below an object. -/
theorem parse_nulled_edited : edited.WellFormed ∧ (Json.object editedSample).WellFormed ∧
    ∃ schema, parse "Form" (some (.object editedSample)) edited = .ok schema ∧
      parse "Form" (some ((Json.object editedSample).nulled fun path => path ∈ [["my colours"], ["home", "city"]]))
        schema = .ok (schema.nulled fun path => path ∈ [["my colours"], ["home", "city"]]) ∧
      parse "Form" (some (.object editedSample))
        (schema.nulled fun path => path ∈ [["my colours"], ["home", "city"]]) = .ok schema :=
  ⟨edited_wellFormed, editedSample_wellFormed, parse_nulled edited_wellFormed editedSample_wellFormed _ "Form"⟩

end Schema
end FormSchema
