import FormSchema.Proofs.Bindings

/-!
Under one widget, every run of edits ends in a schema whose default values follow the source paths. The
item path of an item leads back to the item, and its source path leads to the value it records.
-/
namespace FormSchema
open OrderedMap (keys Distinct)

namespace Item
variable {widget path : String} {withinArray : Bool}

private theorem boundLevel_modify {level : Schema} (h : BoundLevel widget withinArray path level) {identifier : String}
    {old : Item} {change : Item → Item} (hold : OrderedMap.get? level identifier = some old)
    (hkey : (change old).sampleKey = old.sampleKey)
    (hnew : (change old).Bound widget (withinArray || identifier = Identifier.arrayItem)
      (SourcePath.step path (Schema.sourceStep identifier old))) :
    BoundLevel widget withinArray path (OrderedMap.modify level identifier change) := by
  intro entry hentry
  obtain rfl | hentry := OrderedMap.mem_modify hold hentry
  · have hstep : Schema.sourceStep identifier (change old) = Schema.sourceStep identifier old := by
      rw [Schema.sourceStep, Schema.sourceStep, hkey]
    rw [hstep]
    exact hnew
  · exact h entry hentry

/-- Levels stay bound when an item below gives way to one that is bound to the same source path. -/
private theorem boundLevel_replace {level : Schema} (h : BoundLevel widget withinArray path level)
    {identifiers : List String} {old new : Item} {source : String} (hold : level.find? identifiers = some old)
    (hsource : Schema.sourcePathFrom level path identifiers = some source) (hkey : new.sampleKey = old.sampleKey)
    (hnew : new.Bound widget (withinArray || Identifier.arrayItem ∈ identifiers) source) :
    BoundLevel widget withinArray path (level.replace new identifiers) := by
  induction identifiers generalizing level withinArray path with
  | nil => cases hold
  | cons identifier rest ih =>
    rw [Bound.within_cons] at hnew
    cases rest with
    | nil =>
      have hitem : OrderedMap.get? level identifier = some old := hold
      rw [Schema.sourcePathFrom, hitem] at hsource
      obtain rfl := Option.some.inj hsource
      exact boundLevel_modify h hitem hkey (by simpa using hnew)
    | cons next rest =>
      obtain ⟨parent, hparent, hchild⟩ := Schema.exists_parent_of_find? hold
      have hbound := h _ (OrderedMap.mem_of_get?_eq_some hparent)
      rw [Schema.sourcePathFrom, hparent] at hsource
      exact boundLevel_modify h hparent rfl (.intro hbound.default (ih hbound.children hchild hsource hnew))

/-- Choosing a kind binds the item to the source path it is given. -/
private theorem bound_retyped {item : Item} (hcustom : item.isCustomField = false)
    (hrecord : WellFormedSample item.sourceData) (ctx : Context) (source : String) (kind : FieldType) :
    (item.retyped ctx source kind).Bound ctx.widget ctx.withinArray source := by
  have hbuilt : ∀ spec : ItemSpec, spec.isCustomField = false →
      (build ctx spec item.sourceData).Bound ctx.widget ctx.withinArray spec.sourcePath := by
    intro spec hspec
    rw [← reconcile_none]
    exact bound_reconcile hrecord hspec (by simp)
  rw [retyped, hcustom]
  exact (hbuilt { key := item.sampleKey, identifier := item.identifier, sourcePath := source, fieldType := some kind }
    rfl).of_eq rfl rfl

end Item

namespace Schema

theorem sourcePathAt_eq {schema : Schema} {path first : String} {rest : List String} {root : Item} {source : String}
    (hpath : ItemPath.identifiers path = .ok (first :: rest)) (hroot : OrderedMap.get? schema first = some root)
    (hsource : sourcePathFrom root.children SourcePath.root rest = some source) :
    schema.sourcePathAt path = .ok source := by
  rw [sourcePathAt, hpath]
  simp only [bind, Except.bind, hroot, Option.bind_some, hsource]

theorem Sound.eq_root {schema : Schema} (h : schema.Sound none) {identifier : String} {item : Item}
    (hitem : OrderedMap.get? schema identifier = some item) : identifier = Identifier.root := by
  have hkey := OrderedMap.mem_keys_of_mem (OrderedMap.mem_of_get?_eq_some hitem)
  obtain rfl | hkeys := h.regular.root rfl
  · cases hitem
  · rw [hkeys] at hkey
    exact List.mem_singleton.mp hkey

structure Bound (widget : String) (schema : Schema) : Prop where
  sound : schema.Sound none
  items : ∀ entry ∈ schema, entry.2.Bound widget false SourcePath.root

namespace Bound
variable {widget : String} {schema : Schema}

theorem nil (widget : String) : Bound widget [] := ⟨sound_nil, by simp⟩

theorem parsed (h : schema.Bound widget) {entries : OrderedMap Json} (hsample : (Json.object entries).WellFormed) :
    (schema.parsed widget entries).Bound widget := by
  refine ⟨h.sound.parsed hsample widget, fun entry hentry => ?_⟩
  rw [List.mem_singleton.mp hentry]
  refine Item.Bound.movedTo ?_ 0
  have hwell := wellFormedSample_some.mpr hsample
  refine @Item.bound_reconcile _ hwell rootSpec rfl _ { widget } fun item hitem => ?_
  obtain ⟨hsound, hcustom⟩ := h.sound.of_get? hitem
  exact ⟨hsound, hcustom, h.items _ (OrderedMap.mem_of_get?_eq_some hitem)⟩

/-- An item is bound to the source path that is computed from its identifiers. -/
theorem find? (h : schema.Bound widget) {first : String} {rest : List String} {item : Item}
    (hitem : schema.find? (first :: rest) = some item) :
    ∃ root source, OrderedMap.get? schema first = some root ∧
      sourcePathFrom root.children SourcePath.root rest = some source ∧
      item.Bound widget (Identifier.arrayItem ∈ first :: rest) source := by
  rw [find?_cons] at hitem
  obtain ⟨root, hroot, hfound⟩ := Option.bind_eq_some_iff.mp hitem
  obtain ⟨source, hsource, hbound⟩ := (h.items _ (OrderedMap.mem_of_get?_eq_some hroot)).descend hfound
  refine ⟨root, source, hroot, hsource, ?_⟩
  rw [h.sound.eq_root hroot, ← Bool.false_or (decide _), Item.Bound.within_cons]
  exact hbound

/-- The root stays bound when an item gives way to one that is bound to the same source path. -/
theorem replace (h : schema.Bound widget) {first : String} {rest : List String} {root old new : Item}
    {source : String} (hroot : OrderedMap.get? schema first = some root)
    (hold : schema.find? (first :: rest) = some old)
    (hsource : sourcePathFrom root.children SourcePath.root rest = some source)
    (hkey : new.sampleKey = old.sampleKey) (hnew : new.Bound widget (Identifier.arrayItem ∈ first :: rest) source) :
    ∀ entry ∈ schema.replace new (first :: rest), entry.2.Bound widget false SourcePath.root := by
  rw [h.sound.eq_root hroot, ← Bool.false_or (decide _), Item.Bound.within_cons] at hnew
  intro entry hentry
  cases rest with
  | nil =>
    obtain rfl | hentry := OrderedMap.mem_modify hroot hentry
    · obtain rfl := Option.some.inj hsource
      exact hnew
    · exact h.items entry hentry
  | cons next rest =>
    obtain rfl | hentry := OrderedMap.mem_modify hroot hentry
    · obtain ⟨parent, hparent, hchild⟩ := exists_parent_of_find? hold
      obtain rfl := Option.some.inj (hroot.symm.trans hparent)
      have hbound := h.items _ (OrderedMap.mem_of_get?_eq_some hroot)
      exact .intro hbound.default (Item.boundLevel_replace hbound.children hchild hsource hkey hnew)
    · exact h.items entry hentry

/-- Choosing a kind computes the source path from the schema, and it is the one that the item is bound to. -/
theorem retyped (h : schema.Bound widget) {kind : FieldType} {path : String} {next : Schema}
    (hnext : schema.retype widget kind path = .ok next) : next.Bound widget := by
  obtain ⟨identifiers, item, source, hpath, hitem, hsource, rfl⟩ := retype_eq_ok hnext
  obtain ⟨hsound, hcustom⟩ := h.sound.find? hitem
  have hsame := Item.retyped_sameIdentity { widget, withinArray := ItemPath.isWithinArray path } source kind item
  refine ⟨h.sound.replace hitem hsame rfl (Item.everywhere_sound_retyped hsound hcustom ..), ?_⟩
  have hnew := Item.bound_retyped hcustom hsound.here.record
    { widget, withinArray := ItemPath.isWithinArray path } source kind
  rw [show Context.withinArray _ = _ from ItemPath.isWithinArray_iff hpath] at hnew
  match identifiers with
  | [] => cases hitem
  | first :: rest =>
    obtain ⟨root, found, hroot, hfound, hbound⟩ := h.find? hitem
    obtain rfl := Except.ok.inj (hsource.symm.trans (sourcePathAt_eq hpath hroot hfound))
    exact h.replace hroot hitem hfound hsame.sampleKey hnew

end Bound
end Schema

/-- Under one widget, every run ends in a schema that is bound to its samples. -/
theorem run_boundTo {steps : List Step} {widget : String}
    (h : ∀ step ∈ steps, WellFormedSample step.sample ∧ step.widget = widget) : (run steps).Bound widget := by
  refine run_invariant (.nil widget) (fun schema step hschema hstep => ?_) h
  obtain ⟨hsample, rfl⟩ := hstep
  obtain heq | ⟨entries, hobject, heq⟩ | ⟨kind, path, hnext⟩ := step.apply_cases schema
  · rw [heq]
    exact hschema
  · rw [heq]
    exact hschema.parsed (hsample _ hobject)
  · exact hschema.retyped hnext

end FormSchema
