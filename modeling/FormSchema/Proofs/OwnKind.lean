import FormSchema.Proofs.Retyping

/-!
The kind that an item of a new schema already has, chosen by hand. The item is built as it was: it records the value
that it was built for, and the schema gives the source path and tells whether there is a template above.
-/
namespace FormSchema

namespace Item
variable {widget source : String} {withinArray : Bool} {item : Item}

/-- An item that a build has left behind for the value at a source path, wherever it has been placed since. -/
def FreshAt (widget : String) (withinArray : Bool) (source : String) (item : Item) : Prop :=
  ∃ spec sample n, spec.sourcePath = source ∧ spec.isCustomField = false ∧
    item = (build { widget, withinArray } spec sample).movedTo n

/-- A kind that is inferred may as well be asked for. -/
theorem build_kindFor (ctx : Context) (spec : ItemSpec) (sample : Option Json) :
    build ctx { spec with fieldType := some (spec.kindFor sample) } sample = build ctx spec sample := by
  rw [build_eq, build_eq]
  rfl

namespace FreshAt

private theorem of_build (spec : ItemSpec) (hsource : spec.sourcePath = source) (hcustom : spec.isCustomField = false)
    (sample : Option Json) (n : Int) :
    ((build { widget, withinArray } spec sample).movedTo n).FreshAt widget withinArray source :=
  ⟨spec, sample, n, hsource, hcustom, rfl⟩

/-- What a build has left behind is all that it needs. -/
private theorem retyped_eq (h : item.FreshAt widget withinArray source) :
    item.retyped { widget, withinArray } source item.fieldType = { item with isFieldTypeOverridden := true } := by
  obtain ⟨spec, sample, n, rfl, hcustom, rfl⟩ := h
  have hagain := build_kindFor { widget, withinArray } spec sample
  obtain ⟨key, identifier, path, asked, custom⟩ := spec
  obtain rfl : custom = false := hcustom
  have hbuilt := build_eq { widget, withinArray } { key, identifier, sourcePath := path, fieldType := asked } sample
  rw [hbuilt] at hagain
  rw [hbuilt, retyped]
  simp only [movedTo, fresh, Bool.false_eq_true, if_false] at hagain ⊢
  rw [hagain]

/-- Below an item that a build has left behind there are only such items. -/
theorem children (h : item.FreshAt widget withinArray source) : ∀ entry ∈ item.children,
    Identifier.IsWord entry.1 ∧ entry.2.FreshAt widget (withinArray || entry.1 = Identifier.arrayItem)
      (SourcePath.step source (Schema.sourceStep entry.1 entry.2)) := by
  obtain ⟨spec, sample, n, rfl, -, rfl⟩ := h
  intro entry hentry
  have hlevel : ((build { widget, withinArray } spec sample).movedTo n).children =
      childrenFor { widget, withinArray } spec.sourcePath (spec.kindFor sample) [] sample := by
    rw [build_eq]
    rfl
  rw [hlevel] at hentry
  rcases childrenFor_cases { widget, withinArray } spec.sourcePath (spec.kindFor sample) [] sample with
    ⟨-, heq⟩ | ⟨entries, -, -, heq⟩ | ⟨-, -, heq⟩
  · rw [heq, OrderedMap.get?, reconcile_none] at hentry
    obtain rfl := List.mem_singleton.mp hentry
    refine ⟨show Identifier.IsWord Identifier.arrayItem by decide, ?_⟩
    rw [Schema.sourceStep, if_pos rfl, decide_eq_true rfl, Bool.or_true]
    exact of_build (.template spec.sourcePath) rfl rfl ..
  · rw [heq, reconcileLevel_nil, foldl_addField] at hentry
    obtain ⟨old, hold, place, rfl⟩ := Schema.mem_placed hentry
    obtain ⟨key, value, -, ⟨taken, hname⟩, hitem⟩ := mem_addedFields hold
    have hfield : old.1 ≠ Identifier.arrayItem := fun harray =>
      Identifier.ofKey_notReserved key taken (hname ▸ harray ▸ List.mem_cons_self)
    refine ⟨hname ▸ Identifier.isWord_ofKey .., ?_⟩
    rw [Schema.sourceStep, if_neg hfield, decide_eq_false hfield, Bool.or_false, hitem]
    refine of_build (.field key old.1 spec.sourcePath) ?_ rfl ..
    rw [movedTo, build_sampleKey]
    rfl
  · rw [heq] at hentry
    cases hentry

/-- What identifiers lead to from an item that a build has left behind is such an item too. -/
theorem descend (h : item.FreshAt widget withinArray source) {names : List String} {found : Item}
    (hfound : item.descend names = some found) : (∀ name ∈ names, Identifier.IsWord name) ∧
    ∃ below, Schema.sourcePathFrom item.children source names = some below ∧
      found.FreshAt widget (withinArray || Identifier.arrayItem ∈ names) below := by
  induction names generalizing item withinArray source with
  | nil =>
    cases hfound
    exact ⟨by simp, source, rfl, by simpa using h⟩
  | cons name rest ih =>
    obtain ⟨child, hchild, hrest⟩ := exists_child_of_descend hfound
    obtain ⟨hword, hfresh⟩ := h.children _ (OrderedMap.mem_of_get?_eq_some hchild)
    obtain ⟨hwords, below, hbelow, hfresh⟩ := ih hfresh hrest
    refine ⟨List.forall_mem_cons.mpr ⟨hword, hwords⟩, below, ?_, Bound.within_cons .. ▸ hfresh⟩
    rw [Schema.sourcePathFrom, hchild]
    exact hbelow

end FreshAt
end Item

namespace Schema

/-- In the schema of a sample, an item that is made a field of the kind that it has stays as it is, apart from the
mark that the kind is chosen. -/
theorem parse_retypedAt_same (widget : String) (entries : OrderedMap Json) :
    ∃ schema, parse widget (some (.object entries)) [] = .ok schema ∧
      ∀ first rest item, schema.find? (first :: rest) = some item →
        schema.retypedAt widget item.fieldType (ItemPath.through first rest) =
          .ok { item with isFieldTypeOverridden := true } := by
  refine ⟨_, parse_object .., fun first rest item hitem => ?_⟩
  obtain ⟨_, _, root, ⟨rfl, rfl⟩, hroot, hbelow⟩ := exists_first_of_find? hitem
  obtain ⟨rfl, htop⟩ := Prod.mk.inj (List.mem_singleton.mp (OrderedMap.mem_of_get?_eq_some hroot))
  have hfresh : root.FreshAt widget false SourcePath.root := by
    rw [htop, root?, OrderedMap.get?, Item.reconcile_none]
    exact .of_build rootSpec rfl rfl ..
  obtain ⟨hwords, source, hsource, hitemFresh⟩ := hfresh.descend hbelow
  have hpath := ItemPath.identifiers_through (show Identifier.IsWord Identifier.root by decide) hwords
  have hwithin : ItemPath.isWithinArray (ItemPath.through Identifier.root rest) =
      (false || decide (Identifier.arrayItem ∈ rest)) := by
    rw [ItemPath.isWithinArray_iff hpath, ← Bool.false_or (decide _), Item.Bound.within_cons]
    rfl
  rw [(retype_eq hpath hitem (sourcePathAt_eq hpath hroot hsource) widget item.fieldType).1, hwithin,
    hitemFresh.retyped_eq]

def sparseSample : OrderedMap Json :=
  [("a.b", .object [("children", .int 1)]),
    ("rows", .array [.object [("", .array [])], .object [("__array_item__", .null)]])]

theorem parse_retypedAt_same_sparse : ∃ schema item, parse "Form" (some (.object sparseSample)) [] = .ok schema ∧
    schema.find? [Identifier.root, "rows", Identifier.arrayItem, "_", Identifier.arrayItem] = some item ∧
    schema.retypedAt "Form" item.fieldType
      (ItemPath.through Identifier.root ["rows", Identifier.arrayItem, "_", Identifier.arrayItem]) =
        .ok { item with isFieldTypeOverridden := true } := by
  obtain ⟨schema, hparse, hsame⟩ := parse_retypedAt_same "Form" sparseSample
  obtain rfl := Except.ok.inj ((parse_object ..).symm.trans hparse)
  have hfound : ((parsed "Form" sparseSample []).find?
      [Identifier.root, "rows", Identifier.arrayItem, "_", Identifier.arrayItem]).isSome = true := by decide +kernel
  obtain ⟨item, hitem⟩ := Option.isSome_iff_exists.mp hfound
  exact ⟨_, item, hparse, hitem, hsame _ _ _ hitem⟩

end Schema
end FormSchema
