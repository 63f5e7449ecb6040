import FormSchema.Proofs.Descent
import FormSchema.Proofs.ItemPath
import FormSchema.Proofs.Level.Kept
import FormSchema.Proofs.Recorded

/-!
Default values follow source paths. An item is bound to the part of the sample that its path leads to,
and nothing below a template is bound. Reconciliation and the choice of a kind keep this, so the path
of a binding can be computed again from the schema alone.
-/
namespace FormSchema

namespace Binding

private theorem closes_iff {cs : List Char} :
    closes cs = true ↔ ∃ inside after, cs = inside ++ '\x7d' :: '\x7d' :: after := by
  constructor
  · intro h
    fun_induction closes cs with
    | case1 rest => exact ⟨[], rest, rfl⟩
    | case2 c rest _ ih =>
      obtain ⟨inside, after, rfl⟩ := ih h
      exact ⟨c :: inside, after, rfl⟩
    | case3 => cases h
  · rintro ⟨inside, after, rfl⟩
    induction inside with
    | nil => rfl
    | cons c inside ih =>
      rw [List.cons_append, closes.eq_def]
      split
      · rfl
      · rename_i heq
        rw [← (List.cons.inj heq).2]
        exact ih
      · contradiction

private theorem opens_iff {cs : List Char} : opens cs = true ↔
    ∃ before inside after, cs = before ++ '\x7b' :: '\x7b' :: (inside ++ '\x7d' :: '\x7d' :: after) := by
  constructor
  · intro h
    fun_induction opens cs with
    | case1 rest =>
      obtain ⟨inside, after, rfl⟩ := closes_iff.mp h
      exact ⟨[], inside, after, rfl⟩
    | case2 c rest _ ih =>
      obtain ⟨before, inside, after, rfl⟩ := ih h
      exact ⟨c :: before, inside, after, rfl⟩
    | case3 => cases h
  · rintro ⟨before, inside, after, rfl⟩
    induction before with
    | nil => exact closes_iff.mpr ⟨inside, after, rfl⟩
    | cons c before ih =>
      rw [List.cons_append, opens.eq_def]
      split
      · -- The braces open earlier, and what closes them comes later.
        rename_i rest heq
        obtain ⟨-, htail⟩ := List.cons.inj heq
        cases before with
        | nil =>
          obtain ⟨-, rfl⟩ := List.cons.inj htail
          exact closes_iff.mpr ⟨'\x7b' :: inside, after, rfl⟩
        | cons d before =>
          obtain ⟨-, rfl⟩ := List.cons.inj htail
          exact closes_iff.mpr ⟨before ++ '\x7b' :: '\x7b' :: inside, after, by simp⟩
      · rename_i heq
        rw [← (List.cons.inj heq).2]
        exact ih
      · contradiction

/-- A binding is a text with two opening braces and two closing ones somewhere after them. -/
theorem isBinding_iff {text : String} : isBinding text = true ↔
    ∃ before inside after, text = before ++ "\x7b\x7b" ++ inside ++ "\x7d\x7d" ++ after := by
  rw [isBinding, opens_iff]
  constructor
  · rintro ⟨before, inside, after, htext⟩
    refine ⟨.ofList before, .ofList inside, .ofList after, String.toList_inj.mp ?_⟩
    simp [htext]
  · rintro ⟨before, inside, after, rfl⟩
    exact ⟨before.toList, inside.toList, after.toList, by simp⟩

private theorem isBinding_forPath (widget path : String) : isBinding (forPath widget path) = true := by
  have hopening : "\x7b\x7b((sourceData, formData, fieldState) => (" =
      "\x7b\x7b" ++ "((sourceData, formData, fieldState) => (" := by decide
  have hclosing : ".fieldState)\x7d\x7d" = ".fieldState)" ++ "\x7d\x7d" := by decide
  rw [isBinding_iff]
  refine ⟨"", "((sourceData, formData, fieldState) => (" ++ path ++ "))(" ++ widget ++
    ".sourceData, " ++ widget ++ ".formData, " ++ widget ++ ".fieldState)", "", ?_⟩
  delta forPath
  rw [hopening, hclosing]
  simp only [String.append_assoc, String.empty_append, String.append_empty]

/-- The default value of an item that stands for the sample value at a path, given whether it is below a
template. -/
def defaultAt (widget : String) (withinArray : Bool) (path : String) : Option Json :=
  if withinArray then none else some (.string (forPath widget path))

end Binding

namespace Item

private theorem freshDefault_eq (ctx : Context) {spec : ItemSpec} (hspec : spec.isCustomField = false) :
    freshDefault ctx spec = Binding.defaultAt ctx.widget ctx.withinArray spec.sourcePath := by
  rw [freshDefault, hspec]
  rfl

/-- A default value that is a binding, or none at all, is not kept as a literal one. -/
private theorem literalDefault_eq_none {item : Item} {widget : String} {withinArray : Bool} {path : String}
    (h : item.defaultValue = Binding.defaultAt widget withinArray path) : item.literalDefault = none := by
  rw [literalDefault, h, Binding.defaultAt]
  cases withinArray with
  | true => rfl
  | false => simp [Json.text?, Binding.isBinding_forPath, Option.filter]

/-- Reconciliation keeps a default value that follows the path, and gives one to a fresh item. -/
theorem reconcile_defaultValue {ctx : Context} {spec : ItemSpec} (hspec : spec.isCustomField = false)
    {previous : Option Item} (hprevious : ∀ item, previous = some item → item.isCustomField = false ∧
      item.defaultValue = Binding.defaultAt ctx.widget ctx.withinArray spec.sourcePath) (sample : Option Json) :
    (reconcile ctx spec previous sample).defaultValue =
      Binding.defaultAt ctx.widget ctx.withinArray spec.sourcePath := by
  cases previous with
  | none =>
    rw [reconcile_none, build_eq]
    exact freshDefault_eq ctx hspec
  | some item =>
    obtain ⟨hcustom, hdefault⟩ := hprevious item rfl
    by_cases hfrozen : item.Frozen sample
    · rw [reconcile_of_frozen hfrozen]
      exact hdefault
    · by_cases hmatches : item.Matches sample
      · rw [reconcile_of_matches hmatches]
        exact hdefault
      · rw [reconcile_of_changed hfrozen hmatches, rebuild_defaultValue, literalDefault_eq_none hdefault]
        exact freshDefault_eq ctx hcustom

/-- The default values of the item and of all items below it follow the paths of the sample values that
they stand for. -/
inductive Bound (widget : String) : Bool → String → Item → Prop
  | intro {withinArray : Bool} {path : String} {item : Item}
      (default : item.defaultValue = Binding.defaultAt widget withinArray path)
      (children : ∀ entry ∈ item.children, Bound widget (withinArray || entry.1 = Identifier.arrayItem)
        (SourcePath.step path (Schema.sourceStep entry.1 entry.2)) entry.2) : Bound widget withinArray path item

namespace Bound
variable {widget path : String} {withinArray : Bool} {item : Item}

theorem default (h : item.Bound widget withinArray path) :
    item.defaultValue = Binding.defaultAt widget withinArray path := by
  cases h with
  | intro default children => exact default

theorem children (h : item.Bound widget withinArray path) : ∀ entry ∈ item.children,
    entry.2.Bound widget (withinArray || entry.1 = Identifier.arrayItem)
      (SourcePath.step path (Schema.sourceStep entry.1 entry.2)) := by
  cases h with
  | intro default children => exact children

theorem of_eq {other : Item} (h : item.Bound widget withinArray path)
    (hdefault : other.defaultValue = item.defaultValue) (hchildren : other.children = item.children) :
    other.Bound widget withinArray path :=
  .intro (hdefault.trans h.default) (hchildren ▸ h.children)

theorem within_cons (withinArray : Bool) (identifier : String) (rest : List String) :
    (withinArray || decide (Identifier.arrayItem ∈ identifier :: rest)) =
      (withinArray || decide (identifier = Identifier.arrayItem) || decide (Identifier.arrayItem ∈ rest)) := by
  simp [eq_comm, Bool.or_assoc]

/-- The source path of an item below is found, and the default value of that item follows it. -/
theorem descend (h : item.Bound widget withinArray path) {identifiers : List String} {found : Item}
    (hfound : item.descend identifiers = some found) :
    ∃ source, Schema.sourcePathFrom item.children path identifiers = some source ∧
      found.Bound widget (withinArray || Identifier.arrayItem ∈ identifiers) source := by
  induction identifiers generalizing item withinArray path with
  | nil =>
    cases hfound
    exact ⟨path, rfl, by simpa using h⟩
  | cons identifier rest ih =>
    obtain ⟨child, hchild, hbelow⟩ := Item.exists_child_of_descend hfound
    obtain ⟨source, hsource, hbound⟩ := ih (h.children _ (OrderedMap.mem_of_get?_eq_some hchild)) hbelow
    refine ⟨source, ?_, within_cons .. ▸ hbound⟩
    rw [Schema.sourcePathFrom, hchild]
    exact hsource

end Bound

/-- A level below an item at a source path is bound if its items are. -/
abbrev BoundLevel (widget : String) (withinArray : Bool) (path : String) (level : Schema) : Prop :=
  ∀ entry ∈ level, entry.2.Bound widget (withinArray || entry.1 = Identifier.arrayItem)
    (SourcePath.step path (Schema.sourceStep entry.1 entry.2))

theorem Bound.movedTo {widget path : String} {withinArray : Bool} {item : Item}
    (h : item.Bound widget withinArray path) (n : Int) : (item.movedTo n).Bound widget withinArray path :=
  h.of_eq rfl rfl

private theorem bound_field_iff {widget path name : String} {withinArray : Bool} {item : Item}
    (hname : name ≠ Identifier.arrayItem) :
    item.Bound widget (withinArray || name = Identifier.arrayItem)
      (SourcePath.step path (Schema.sourceStep name item)) ↔
      item.Bound widget withinArray (SourcePath.step path (.name item.sampleKey)) := by
  rw [Schema.sourceStep, if_neg hname, decide_eq_false hname, Bool.or_false]

private theorem bound_template_iff {widget path : String} {withinArray : Bool} {item : Item} :
    item.Bound widget (withinArray || Identifier.arrayItem = Identifier.arrayItem)
      (SourcePath.step path (Schema.sourceStep Identifier.arrayItem item)) ↔
      item.Bound widget true (SourcePath.step path (.index 0)) := by
  rw [Schema.sourceStep, if_pos rfl, decide_eq_true rfl, Bool.or_true]

/-- The children of an item are bound once those that follow a part of the sample are. -/
private theorem boundLevel_childrenFor {ctx : Context} {path : String} {kind : FieldType} {old : Schema}
    (hold : old.Tidy (some kind)) {sample : Option Json} (hsample : WellFormedSample sample)
    (hkept : BoundLevel ctx.widget ctx.withinArray path old)
    (htemplate : kind = .array → (reconcile ctx.enterArray (.template path)
      (OrderedMap.get? old Identifier.arrayItem) (representative sample)).Bound ctx.widget true
        (SourcePath.step path (.index 0)))
    (hfields : ∀ entries, sample = some (.object entries) → ∀ key value identifier previous,
      OrderedMap.get? entries key = some value →
      (∀ field, previous = some field → (identifier, field) ∈ old ∧
        field.Bound ctx.widget ctx.withinArray (SourcePath.step path (.name key))) →
      (reconcile ctx (.field key identifier path) previous (some value)).Bound ctx.widget ctx.withinArray
        (SourcePath.step path (.name key))) :
    BoundLevel ctx.widget ctx.withinArray path (childrenFor ctx path kind old sample) := by
  intro entry hentry
  rcases childrenFor_cases ctx path kind old sample with ⟨harray, heq⟩ | ⟨entries, rfl, rfl, heq⟩ | ⟨-, -, heq⟩
  · rw [heq] at hentry
    rw [List.mem_singleton.mp hentry]
    exact bound_template_iff.mpr ((htemplate harray).movedTo 0)
  · rw [heq] at hentry
    obtain ⟨-, -, hreserved⟩ := hold.of_mem_reconcileLevel hsample.distinct hentry
    obtain ⟨value, previous, n, hvalue, hprevious, -, hitem⟩ :=
      hold.exists_of_mem_reconcileLevel hsample.distinct hentry
    have hname : entry.1 ≠ Identifier.arrayItem := fun h => hreserved (by simp [h, Identifier.reserved])
    rw [bound_field_iff hname]
    generalize entry.2.sampleKey = key at *
    rw [hitem]
    refine (hfields entries rfl key value entry.1 previous hvalue fun field hfield => ?_).movedTo n
    obtain ⟨hmem, hstands⟩ := hprevious field hfield
    have hbound := (bound_field_iff hname).mp (hkept (entry.1, field) hmem)
    rw [(standsFor_iff.mp hstands).2] at hbound
    exact ⟨hmem, hbound⟩
  · rw [heq] at hentry
    exact hkept entry hentry

/-- Reconciliation binds an item to the source path it is given, with all that is below. -/
theorem bound_reconcile {sample : Option Json} (hsample : WellFormedSample sample) {spec : ItemSpec}
    (hspec : spec.isCustomField = false) {previous : Option Item} {ctx : Context}
    (hprevious : ∀ item, previous = some item → item.Everywhere Sound ∧ item.isCustomField = false ∧
      item.Bound ctx.widget ctx.withinArray spec.sourcePath) :
    (reconcile ctx spec previous sample).Bound ctx.widget ctx.withinArray spec.sourcePath := by
  revert ctx hprevious hspec hsample
  refine reconcile_induction (motive := fun spec previous sample => WellFormedSample sample →
    spec.isCustomField = false → ∀ ctx : Context, (∀ item, previous = some item → item.Everywhere Sound ∧
      item.isCustomField = false ∧ item.Bound ctx.widget ctx.withinArray spec.sourcePath) →
    (reconcile ctx spec previous sample).Bound ctx.widget ctx.withinArray spec.sourcePath) ?_ spec previous sample
  intro spec previous sample ihfield ihtemplate ihfresh hsample hspec ctx hprevious
  have hdefault := reconcile_defaultValue hspec
    (fun item hitem => ⟨(hprevious item hitem).2.1, (hprevious item hitem).2.2.default⟩) sample
  -- What is left is the level below, which each outcome takes from another place.
  refine .intro hdefault ?_
  show BoundLevel _ _ _ _
  rcases reconcile_cases ctx spec previous sample with
    ⟨item, rfl, hfrozen, heq⟩ | ⟨item, rfl, hmatches, heq⟩ | ⟨-, hbuilt⟩
  · rw [heq]
    exact (hprevious item rfl).2.2.children
  · obtain ⟨hsound, hcustom, hbound⟩ := hprevious item rfl
    rw [heq]
    refine boundLevel_childrenFor hsound.here.level.toTidy hsample hbound.children (fun hkind => ?_)
      fun entries hentries key value identifier previous hget hold => ?_
    · refine ihtemplate item _ rfl hsample.representative rfl ctx.enterArray fun template htemplate => ?_
      have hmem := OrderedMap.mem_of_get?_eq_some htemplate
      exact ⟨hsound.inside _ hmem, hsound.here.level.sampled _ hmem,
        bound_template_iff.mp (hbound.children (_, template) hmem)⟩
    · refine ihfield entries key value hentries hget (.field key identifier spec.sourcePath) previous
        ((hentries ▸ hsample).value hget) rfl ctx fun field hfield => ?_
      obtain ⟨hmem, hfieldbound⟩ := hold field hfield
      exact ⟨hsound.inside _ hmem, hsound.here.level.sampled _ hmem, hfieldbound⟩
  · rw [hbuilt.children]
    refine boundLevel_childrenFor (.nil _) hsample (by simp) (fun harray => ?_)
      fun entries hentries key value identifier previous hget hold => ?_
    · refine ihfresh _ (fun hnone => ?_) hsample.representative rfl ctx.enterArray (by simp)
      subst hnone
      rw [← hbuilt.kind_of_none, harray]
    · refine ihfield entries key value hentries hget (.field key identifier spec.sourcePath) previous
        ((hentries ▸ hsample).value hget) rfl ctx fun field hfield => ?_
      cases (hold field hfield).1

end Item
end FormSchema
