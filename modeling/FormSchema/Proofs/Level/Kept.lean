import FormSchema.Proofs.Outcome

namespace FormSchema
open OrderedMap (keys Distinct)

namespace Item

/-- What stays of an item when its field gets a value. -/
structure KeptBy (value : Json) (old new : Item) : Prop where
  field : ∃ n, new.SameField (old.movedTo n)
  literal : ∀ literal, old.defaultValue = some literal → literal.text?.any Binding.isBinding = false →
    new.defaultValue = some literal
  chosen : old.isFieldTypeOverridden = true → new.fieldType = old.fieldType
  shape : value = .null ∨ old.Matches (some value) → new.dataType = old.dataType ∧
    new.fieldType = old.fieldType ∧ new.defaultValue = old.defaultValue ∧ new.props = old.props

private theorem literalDefault_eq_some {item : Item} {literal : Json} (h : item.defaultValue = some literal)
    (hliteral : literal.text?.any Binding.isBinding = false) : item.literalDefault = some literal := by
  rw [literalDefault, h, Option.filter_some, hliteral]
  rfl

theorem rebuild_defaultValue (ctx : Context) (spec : ItemSpec) (item : Item) (sample : Option Json) :
    (rebuild ctx spec item sample).defaultValue =
      (item.literalDefault <|> freshDefault ctx { spec with isCustomField := item.isCustomField }) := by
  rw [rebuild, build_eq]
  rfl

/-- Null never has another shape. -/
private theorem frozen_or_matches_null (item : Item) : item.Frozen (some .null) ∨ item.Matches (some .null) := by
  cases htype : item.dataType.isNullish with
  | false => exact .inl ⟨rfl, htype⟩
  | true => exact .inr ⟨.inr ⟨rfl, htype⟩, rfl⟩

private theorem keptBy_rebuild (ctx : Context) {spec : ItemSpec} (hspec : spec.fieldType = none) {item : Item}
    {value : Json} (hfrozen : ¬ item.Frozen (some value)) (hmatches : ¬ item.Matches (some value))
    (hfield : ∃ n, (rebuild ctx spec item (some value)).SameField (item.movedTo n)) :
    item.KeptBy value (rebuild ctx spec item (some value)) where
  field := hfield
  literal literal hdefault hliteral := by
    rw [rebuild_defaultValue, literalDefault_eq_some hdefault hliteral]
    rfl
  chosen hchosen := by
    rw [(rebuild_builtFrom ctx spec item (some value)).fieldType, hspec, chosenKind]
    simp [hchosen]
  shape := by
    rintro (rfl | hshape)
    · exact absurd item.frozen_or_matches_null (not_or.mpr ⟨hfrozen, hmatches⟩)
    · exact absurd hshape hmatches

/-- A field whose kind is not prescribed keeps what the user has set. -/
theorem keptBy_reconcile (ctx : Context) {spec : ItemSpec} (hspec : spec.fieldType = none) (item : Item)
    (value : Json) : item.KeptBy value (reconcile ctx spec (some item) (some value)) := by
  have hfield : ∃ n, (reconcile ctx spec (some item) (some value)).SameField (item.movedTo n) := by
    refine ⟨item.position, ?_⟩
    rw [movedTo_position]
    exact reconcile_sameField ..
  by_cases hfrozen : item.Frozen (some value)
  · rw [reconcile_of_frozen hfrozen] at hfield ⊢
    exact ⟨hfield, fun _ hdefault _ => hdefault, fun _ => rfl, fun _ => ⟨rfl, rfl, rfl, rfl⟩⟩
  · by_cases hmatches : item.Matches (some value)
    · rw [reconcile_of_matches hmatches] at hfield ⊢
      exact ⟨hfield, fun _ hdefault _ => hdefault, fun _ => rfl, fun _ => ⟨rfl, rfl, rfl, rfl⟩⟩
    · rw [reconcile_of_changed hfrozen hmatches] at hfield ⊢
      exact keptBy_rebuild ctx hspec hfrozen hmatches hfield

/-- A place among siblings is none of a user's settings. -/
theorem KeptBy.movedTo {value : Json} {old new : Item} (h : old.KeptBy value new) (n : Int) :
    old.KeptBy value (new.movedTo n) := by
  obtain ⟨m, hfield⟩ := h.field
  refine ⟨⟨n, ?_⟩, h.literal, h.chosen, h.shape⟩
  exact { hfield with position := rfl }

end Item

namespace Schema

/-- What stays of a level when it gets an object. -/
structure KeptIn (entries : OrderedMap Json) (old new : Schema) : Prop where
  custom : ∀ entry ∈ old, entry.2.isCustomField = true →
    ∃ n, OrderedMap.get? new entry.1 = some (entry.2.movedTo n)
  sampled : ∀ entry ∈ old, entry.2.isCustomField = false →
    ∀ value, OrderedMap.get? entries entry.2.sampleKey = some value →
      ∃ item, OrderedMap.get? new entry.1 = some item ∧ entry.2.KeptBy value item

private theorem exists_get?_placed {level : Schema} (h : Distinct level) {entry : String × Item}
    (hentry : entry ∈ level)
    (new : List String) : ∃ n, OrderedMap.get? (level.placed new) entry.1 = some (entry.2.movedTo n) := by
  have hdistinct : Distinct (level.placed new) := by rwa [Distinct, keys_placed]
  obtain ⟨place, heq⟩ := placed_eq_map_movedTo level new
  refine ⟨place entry, hdistinct.get?_eq_some_iff.mpr ?_⟩
  rw [heq]
  exact List.mem_map_of_mem hentry

theorem exists_get?_of_mem_followedLevel {level : Schema} (h : level.WellKeyed) {entries : OrderedMap Json}
    (hentries : Distinct entries) {ctx : Context} {path : String} {entry : String × Item}
    (hentry : entry ∈ level.followedLevel ctx path entries) :
    ∃ n, OrderedMap.get? (Item.reconcileLevel ctx path level entries) entry.1 = some (entry.2.movedTo n) := by
  rw [reconcileLevel_eq h hentries]
  exact exists_get?_placed (wellKeyed_followedLevel h hentries ctx path).distinct hentry _

/-- An item that survives stays under its identifier. -/
private theorem exists_get?_reconcileLevel {level : Schema} (h : level.WellKeyed) {entries : OrderedMap Json}
    (hentries : Distinct entries) {entry : String × Item} (hentry : entry ∈ level.survivors entries)
    (ctx : Context) (path : String) :
    ∃ n, OrderedMap.get? (Item.reconcileLevel ctx path level entries) entry.1 =
      some ((Item.followed ctx path entries entry).2.movedTo n) := by
  have hfollowed : Item.followed ctx path entries entry ∈ level.followedLevel ctx path entries :=
    List.mem_append_left _ (List.mem_map_of_mem hentry)
  rw [← (Item.followed_sameField ctx path entries entry).1]
  exact exists_get?_of_mem_followedLevel h hentries hfollowed

theorem exists_get?_custom {level : Schema} (h : level.WellKeyed) {entries : OrderedMap Json}
    (hentries : Distinct entries) {entry : String × Item} (hentry : entry ∈ level)
    (hcustom : entry.2.isCustomField = true) (ctx : Context) (path : String) :
    ∃ n, OrderedMap.get? (Item.reconcileLevel ctx path level entries) entry.1 = some (entry.2.movedTo n) := by
  have hsurvives : entry ∈ level.survivors entries := mem_survivors.mpr ⟨hentry, .inl hcustom⟩
  have hget := exists_get?_reconcileLevel h hentries hsurvives ctx path
  rwa [Item.followed_of_custom hcustom] at hget

/-- An item whose key is still there is reconciled with its value and stays under its identifier. -/
theorem exists_get?_sampled {level : Schema} (h : level.WellKeyed) {entries : OrderedMap Json}
    (hentries : Distinct entries) {identifier : String} {item : Item}
    (hitem : OrderedMap.get? level identifier = some item) (hsampled : item.isCustomField = false) {value : Json}
    (hvalue : OrderedMap.get? entries item.sampleKey = some value) (ctx : Context) (path : String) :
    ∃ n, OrderedMap.get? (Item.reconcileLevel ctx path level entries) identifier =
      some ((Item.reconcile ctx (.field item.sampleKey identifier path) (some item) (some value)).movedTo n) := by
  have hmem := OrderedMap.mem_of_get?_eq_some hitem
  have hkey := OrderedMap.mem_keys_of_mem (OrderedMap.mem_of_get?_eq_some hvalue)
  have hget := exists_get?_reconcileLevel h hentries (mem_survivors.mpr ⟨hmem, .inr hkey⟩) ctx path
  rwa [Item.followed_of_value hsampled hvalue] at hget

end Schema

namespace Item
variable {item : Item} {entries : OrderedMap Json}

/-- An object item that fits takes a custom field over, moved at most. -/
theorem Matches.exists_get?_custom (h : item.Matches (some (.object entries))) (hkind : item.fieldType = .object)
    (hkeyed : Schema.WellKeyed item.children) (hentries : Distinct entries) {identifier : String} {field : Item}
    (hfield : OrderedMap.get? item.children identifier = some field) (hcustom : field.isCustomField = true)
    (ctx : Context) (spec : ItemSpec) :
    ∃ n, OrderedMap.get? (reconcile ctx spec (some item) (some (.object entries))).children identifier =
      some (field.movedTo n) := by
  rw [h.children_reconcile_object hkind]
  exact Schema.exists_get?_custom hkeyed hentries (OrderedMap.mem_of_get?_eq_some hfield) hcustom ctx _

/-- It reconciles the other fields with their values. -/
theorem Matches.exists_get?_sampled (h : item.Matches (some (.object entries))) (hkind : item.fieldType = .object)
    (hkeyed : Schema.WellKeyed item.children) (hentries : Distinct entries) {identifier : String} {field : Item}
    (hfield : OrderedMap.get? item.children identifier = some field) (hsampled : field.isCustomField = false)
    {value : Json} (hvalue : OrderedMap.get? entries field.sampleKey = some value) (ctx : Context)
    (spec : ItemSpec) :
    ∃ n, OrderedMap.get? (reconcile ctx spec (some item) (some (.object entries))).children identifier =
      some ((reconcile ctx (.field field.sampleKey identifier spec.sourcePath) (some field)
        (some value)).movedTo n) := by
  rw [h.children_reconcile_object hkind]
  exact Schema.exists_get?_sampled hkeyed hentries hfield hsampled hvalue ctx _

end Item

namespace Schema

/-- Reconciling a level keeps the custom fields and, of the others whose keys are still there, what the
user has set. -/
theorem keptIn_reconcileLevel {level : Schema} (h : level.WellKeyed) {entries : OrderedMap Json}
    (hentries : Distinct entries) (ctx : Context) (path : String) :
    level.KeptIn entries (Item.reconcileLevel ctx path level entries) where
  custom _ hentry hcustom := exists_get?_custom h hentries hentry hcustom ctx path
  sampled entry hentry hcustom value hvalue := by
    have hkey := OrderedMap.mem_keys_of_mem (OrderedMap.mem_of_get?_eq_some hvalue)
    have hsurvives := mem_survivors.mpr ⟨hentry, .inr hkey⟩
    obtain ⟨n, hget⟩ := exists_get?_reconcileLevel h hentries hsurvives ctx path
    rw [Item.followed_of_value hcustom hvalue] at hget
    exact ⟨_, hget, (Item.keptBy_reconcile ctx rfl entry.2 value).movedTo n⟩

def customised : Schema :=
  let ctx : Context := { widget := "Form" }
  let colours := Item.fresh ctx (.field "my colours" "my_colours" SourcePath.root) (some (.array [.string "red"])) []
  let size := Item.fresh ctx (.field "size" "size" SourcePath.root) (some (.int 1)) []
  let note := Item.fresh ctx
    { ItemSpec.field "note" "note" SourcePath.root with fieldType := some .select, isCustomField := true } none []
  [("my_colours", { colours with fieldType := .select, isFieldTypeOverridden := true }),
    ("size", { size with defaultValue := some (.int 5), label := "Your size" }), ("note", note)]

def customisedSample : OrderedMap Json :=
  [("note", .bool true), ("size", .string "L"), ("my colours", .null)]

theorem keptIn_reconcileLevel_customised : customised.WellKeyed ∧ Distinct customisedSample ∧
    customised.KeptIn customisedSample
      (Item.reconcileLevel { widget := "Form" } SourcePath.root customised customisedSample) := by
  have hlevel : customised.WellKeyed :=
    ⟨by decide, by simp [customised, Item.fresh, ItemSpec.field], by decide⟩
  have hsample : Distinct customisedSample := by decide
  exact ⟨hlevel, hsample, keptIn_reconcileLevel hlevel hsample ..⟩

end Schema
end FormSchema
