import FormSchema.Proofs.BoundRun
import FormSchema.Proofs.DynamicPaths
import FormSchema.Proofs.Replacement
import FormSchema.Proofs.SettledRun

namespace FormSchema

namespace Item

/-- Identity, label, place and flags stay, and the kind counts as chosen. -/
theorem retyped_sameField (ctx : Context) (source : String) (kind : FieldType) (item : Item) :
    (item.retyped ctx source kind).SameField { item with isFieldTypeOverridden := true } :=
  ⟨build_identifier .., build_sampleKey .., rfl, rfl, rfl, build_isCustomField .., rfl, rfl, rfl, rfl⟩

private theorem retyped_fieldType (ctx : Context) (source : String) (kind : FieldType) (item : Item) :
    (item.retyped ctx source kind).fieldType = kind := (build_builtFrom ..).kind_of_none

/-- Of an item, choosing a kind reads its identity, label, place and flags, and the record unless the item is custom. -/
theorem retyped_congr {a b : Item} (h : a.SameField { b with isFieldTypeOverridden := a.isFieldTypeOverridden })
    (hrecord : a.isCustomField = false → a.sourceData = b.sourceData) (ctx : Context) (source : String)
    (kind : FieldType) : a.retyped ctx source kind = b.retyped ctx source kind := by
  obtain ⟨hidentifier, hkey, haccessor, hlabel, hposition, hcustom, hvisible, hrequired, hdisabled, -⟩ := h
  dsimp only at hidentifier hkey haccessor hlabel hposition hcustom hvisible hrequired hdisabled
  have hsample : (if b.isCustomField then some kind.standIn else a.sourceData) =
      if b.isCustomField then some kind.standIn else b.sourceData := by
    split
    · rfl
    · rename_i hflag
      exact hrecord (hcustom.trans (Bool.eq_false_iff.mpr hflag))
  rw [retyped, retyped, hidentifier, hkey, haccessor, hlabel, hposition, hcustom, hvisible, hrequired, hdisabled,
    hsample]

/-- Nothing that an earlier choice has changed matters for a later one. -/
theorem retyped_retyped (item : Item) (ctx earlierCtx : Context) (source earlierSource : String)
    (kind earlier : FieldType) : (item.retyped earlierCtx earlierSource earlier).retyped ctx source kind =
      item.retyped ctx source kind := by
  have hsame := retyped_sameField earlierCtx earlierSource earlier item
  exact retyped_congr hsame (fun h => retyped_sourceData (hsame.isCustomField.symm.trans h) ..) ..

end Item

namespace Schema
variable {schema : Schema} {path : String} {names : List String} {item : Item}

/-- Where an item is found, its source path is found too. -/
private theorem exists_sourcePathAt (hpath : ItemPath.identifiers path = .ok names)
    (hitem : schema.find? names = some item) :
    ∃ source, schema.sourcePathAt path = .ok source := by
  obtain ⟨first, rest, root, rfl, hroot, hfound⟩ := exists_first_of_find? hitem
  obtain ⟨source, hsource⟩ := Item.exists_sourcePathFrom hfound SourcePath.root
  exact ⟨source, sourcePathAt_eq hpath hroot hsource⟩

private theorem itemAt_eq (hpath : ItemPath.identifiers path = .ok names) (hitem : schema.find? names = some item) :
    schema.itemAt path = .ok item := itemAt_eq_ok_iff.mpr ⟨names, hpath, hitem⟩

/-- The item becomes what it is as a field of the kind, in its place. -/
theorem retype_eq (hpath : ItemPath.identifiers path = .ok names) (hitem : schema.find? names = some item)
    {source : String} (hsource : schema.sourcePathAt path = .ok source) (widget : String) (kind : FieldType) :
    schema.retypedAt widget kind path =
      .ok (item.retyped { widget, withinArray := ItemPath.isWithinArray path } source kind) ∧
    schema.retype widget kind path = .ok (schema.replace
      (item.retyped { widget, withinArray := ItemPath.isWithinArray path } source kind) names) := by
  have hretyped : schema.retypedAt widget kind path =
      .ok (item.retyped { widget, withinArray := ItemPath.isWithinArray path } source kind) := by
    rw [retypedAt, itemAt_eq hpath hitem, hsource]
    rfl
  refine ⟨hretyped, ?_⟩
  rw [retype, hretyped]
  simp only [bind, Except.bind, setItemAt, hpath, hitem]

private theorem retype_of_itemAt_error {error : SchemaError} (h : schema.itemAt path = .error error) (widget : String)
    (kind : FieldType) : schema.retype widget kind path = .error error := by
  rw [retype, retypedAt, h]
  rfl

/-- The source path of an item stays when another one with its key comes in its place. -/
private theorem sourcePathAt_replace (hpath : ItemPath.identifiers path = .ok names)
    (hitem : schema.find? names = some item) {new : Item} (hkey : new.sampleKey = item.sampleKey) :
    (schema.replace new names).sourcePathAt path = schema.sourcePathAt path := by
  obtain ⟨first, rest, root, rfl, hroot, hfound⟩ := exists_first_of_find? hitem
  rw [sourcePathAt, sourcePathAt, hpath]
  simp only [bind, Except.bind, get?_replace, if_pos, hroot, Option.map_some, Option.bind_some,
    Item.sourcePathFrom_replaced hfound hkey]

private theorem retype_retype (schema : Schema) (path widget earlierWidget : String) (kind earlier : FieldType) :
    (schema.retype earlierWidget earlier path).bind (fun next => next.retype widget kind path) =
      schema.retype widget kind path := by
  cases hitem : schema.itemAt path with
  | error error =>
    rw [retype_of_itemAt_error hitem, retype_of_itemAt_error hitem]
    rfl
  | ok item =>
    obtain ⟨names, hpath, hfound⟩ := itemAt_eq_ok_iff.mp hitem
    obtain ⟨source, hsource⟩ := exists_sourcePathAt hpath hfound
    let retyped := item.retyped { widget := earlierWidget, withinArray := ItemPath.isWithinArray path } source earlier
    have hkey : retyped.sampleKey = item.sampleKey := (Item.retyped_sameField ..).sampleKey
    have hlater := sourcePathAt_replace hpath hfound hkey
    rw [(retype_eq hpath hfound hsource _ _).2, (retype_eq hpath hfound hsource _ _).2]
    show (schema.replace retyped names).retype widget kind path = _
    rw [(retype_eq hpath (find?_replace_self hfound) (hlater.trans hsource) _ _).2, Item.retyped_retyped,
      replace_replace]

/-- Choosing a kind for the item at a path fails as looking the item up does, and then nothing happens. Otherwise the
item becomes what it is as a field of the kind and keeps its identity, label, place and flags, and the schema is the
same but for the item. Of two choices the later one counts. -/
theorem retype_exact (widget : String) (kind : FieldType) (schema : Schema) (path : String) :
    (∀ error, schema.retype widget kind path = .error error ↔ schema.itemAt path = .error error) ∧
    (∀ error, schema.itemAt path = .error error → (Step.retype widget kind path).apply schema = schema) ∧
    (∀ item, schema.itemAt path = .ok item → ∃ names new next, ItemPath.identifiers path = .ok names ∧
      schema.retypedAt widget kind path = .ok new ∧ new.fieldType = kind ∧
      new.SameField { item with isFieldTypeOverridden := true } ∧
      schema.retype widget kind path = .ok next ∧ next.itemAt path = .ok new ∧ SameBut names schema next) ∧
    ∀ earlierWidget earlier,
      (schema.retype earlierWidget earlier path).bind (fun next => next.retype widget kind path) =
        schema.retype widget kind path := by
  have hok : ∀ item, schema.itemAt path = .ok item → ∃ names new next, ItemPath.identifiers path = .ok names ∧
      schema.retypedAt widget kind path = .ok new ∧ new.fieldType = kind ∧
      new.SameField { item with isFieldTypeOverridden := true } ∧
      schema.retype widget kind path = .ok next ∧ next.itemAt path = .ok new ∧ SameBut names schema next := by
    intro item hitem
    obtain ⟨names, hpath, hfound⟩ := itemAt_eq_ok_iff.mp hitem
    obtain ⟨source, hsource⟩ := exists_sourcePathAt hpath hfound
    obtain ⟨hnew, hnext⟩ := retype_eq hpath hfound hsource widget kind
    exact ⟨names, _, _, hpath, hnew, Item.retyped_fieldType .., Item.retyped_sameField .., hnext,
      itemAt_eq hpath (find?_replace_self hfound), sameBut_replace ..⟩
  refine ⟨fun error => ⟨fun h => ?_, fun h => retype_of_itemAt_error h widget kind⟩, fun error h => ?_, hok,
    fun earlierWidget earlier => retype_retype ..⟩
  · cases hitem : schema.itemAt path with
    | error other =>
      cases (retype_of_itemAt_error hitem widget kind).symm.trans h
      rfl
    | ok item =>
      obtain ⟨names, new, next, -, -, -, -, hnext, -, -⟩ := hok item hitem
      rw [hnext] at h
      cases h
  · rw [Step.apply, Step.attempt, retype_of_itemAt_error h]
    rfl

def unruly : Schema :=
  let ctx : Context := { widget := "Form" }
  let note := Item.build ctx.enterArray
    { ItemSpec.field "note" "note" SourcePath.root with isCustomField := true } none
  let template := Item.fresh ctx.enterArray (.template SourcePath.root) none [("note", note), ("other", note)]
  [("tags", Item.fresh ctx (.field "my tags" "tags" SourcePath.root) (some (.string "red"))
    [(Identifier.arrayItem, template)])]

theorem retype_exact_unruly : ∃ note,
    unruly.itemAt "schema.tags.children.__array_item__.children.note" = .ok note ∧
    ∃ names new next,
      ItemPath.identifiers "schema.tags.children.__array_item__.children.note" = .ok names ∧
      unruly.retypedAt "Form" .array "schema.tags.children.__array_item__.children.note" = .ok new ∧
      new.fieldType = .array ∧ new.SameField { note with isFieldTypeOverridden := true } ∧
      unruly.retype "Form" .array "schema.tags.children.__array_item__.children.note" = .ok next ∧
      next.itemAt "schema.tags.children.__array_item__.children.note" = .ok new ∧ SameBut names unruly next := by
  have hfound : (unruly.itemAt "schema.tags.children.__array_item__.children.note").toOption.isSome = true := by
    decide +kernel
  cases hnote : unruly.itemAt "schema.tags.children.__array_item__.children.note" with
  | error error => rw [hnote] at hfound; cases hfound
  | ok note => exact ⟨note, rfl, (retype_exact "Form" .array unruly _).2.2.1 note hnote⟩

end Schema
end FormSchema
