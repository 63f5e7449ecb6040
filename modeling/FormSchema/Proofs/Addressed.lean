import FormSchema.Proofs.DynamicPaths
import FormSchema.Proofs.Storable

namespace FormSchema
open OrderedMap (keys)
open ItemPath (IsName)

private theorem ItemPath.isName_root : IsName Identifier.root := by decide

private theorem ItemPath.isName_arrayItem : IsName Identifier.arrayItem := by decide

namespace Item

/-- The identifier of an item can stand in a path, and so can those that its children lie under. -/
structure Addresses (item : Item) : Prop where
  own : IsName item.identifier
  children : ∀ entry ∈ item.children, IsName entry.1

instance (item : Item) : Decidable item.Addresses :=
  decidable_of_iff (IsName item.identifier ∧ ∀ entry ∈ item.children, IsName entry.1)
    ⟨fun ⟨own, children⟩ => ⟨own, children⟩, fun h => ⟨h.own, h.children⟩⟩

end Item

namespace Schema

/-- All identifiers can stand in paths, those that items lie under and those that they have themselves. -/
def Addressed (level : Schema) : Prop := ∀ entry ∈ level, IsName entry.1 ∧ entry.2.Everywhere Item.Addresses

instance (level : Schema) : Decidable level.Addressed :=
  inferInstanceAs (Decidable (∀ entry ∈ level, IsName entry.1 ∧ entry.2.Everywhere Item.Addresses))

end Schema

private theorem Item.everywhere_addresses_iff {item : Item} :
    item.Everywhere Addresses ↔ IsName item.identifier ∧ Schema.Addressed item.children := by
  rw [everywhere_iff]
  exact ⟨fun h => ⟨h.1.own, fun entry hentry => ⟨h.1.children entry hentry, h.2 entry hentry⟩⟩,
    fun h => ⟨⟨h.1, fun entry hentry => (h.2 entry hentry).1⟩, fun entry hentry => (h.2 entry hentry).2⟩⟩

theorem Item.Everywhere.movedTo {item : Item} (h : item.Everywhere Addresses) (n : Int) :
    (item.movedTo n).Everywhere Addresses := .intro ⟨h.here.own, h.here.children⟩ h.inside

namespace Schema
variable {level : Schema} {ctx : Context} {path : String} {entries : OrderedMap Json}

def FieldsAddressed (ctx : Context) (path : String) (entries : OrderedMap Json) : Prop :=
  ∀ key value identifier previous, OrderedMap.get? entries key = some value → IsName identifier →
    (∀ field, previous = some field → field.Everywhere Item.Addresses) →
    (Item.reconcile ctx (.field key identifier path) previous (some value)).Everywhere Item.Addresses

namespace Addressed

theorem get? (h : level.Addressed) {key : String} {item : Item} (hitem : OrderedMap.get? level key = some item) :
    item.Everywhere Item.Addresses := (h _ (OrderedMap.mem_of_get?_eq_some hitem)).2

theorem insert (h : level.Addressed) {key : String} (hkey : IsName key) {item : Item}
    (hitem : item.Everywhere Item.Addresses) : Addressed (OrderedMap.insert level key item) := by
  intro entry hentry
  rcases OrderedMap.mem_insert hentry with hentry | rfl
  · exact h entry hentry
  · exact ⟨hkey, hitem⟩

theorem erase (h : level.Addressed) (key : String) : Addressed (OrderedMap.erase level key) :=
  fun entry hentry => h entry (OrderedMap.mem_of_mem_erase hentry)

theorem placed (h : level.Addressed) (new : List String) : (level.placed new).Addressed := by
  intro entry hentry
  obtain ⟨old, hold, n, rfl⟩ := mem_placed hentry
  obtain ⟨hname, hitem⟩ := h old hold
  exact ⟨hname, hitem.movedTo n⟩

theorem identifierFor? (h : level.Addressed) {key identifier : String}
    (hidentifier : level.identifierFor? key = some identifier) : IsName identifier := by
  obtain ⟨item, hitem, rfl⟩ := Option.map_eq_some_iff.mp hidentifier
  obtain ⟨entry, hentry, rfl⟩ := List.mem_map.mp (List.mem_of_find?_eq_some hitem)
  exact (h entry hentry).2.here.own

theorem addField (h : level.Addressed) (hentries : OrderedMap.Distinct entries)
    (hfields : FieldsAddressed ctx path entries) {entry : String × Json} (hentry : entry ∈ entries) :
    (Item.addField ctx path level entry).Addressed := by
  have hword := ItemPath.isName_of_isWord (Identifier.isWord_ofKey entry.1 (keys level))
  refine h.insert hword ?_
  rw [← Item.reconcile_none]
  exact hfields _ _ _ none (hentries.get?_of_mem hentry) hword (by simp)

theorem updateField (h : level.Addressed) (hfields : FieldsAddressed ctx path entries) (key : String) :
    (Item.updateField Item.reconcile ctx path entries level key).Addressed := by
  unfold Item.updateField
  split
  · rename_i identifier value hidentifier hvalue
    have hname := h.identifierFor? hidentifier
    exact h.insert hname (hfields key value identifier _ hvalue hname fun field hfield => h.get? hfield)
  · exact h

theorem reconcileLevel (h : level.Addressed) (hentries : OrderedMap.Distinct entries)
    (hfields : FieldsAddressed ctx path entries) : (Item.reconcileLevel ctx path level entries).Addressed :=
  reconcileLevel_induction h (fun _ key hlevel => hlevel.erase key)
    (fun _ _ hentry hlevel => hlevel.addField hentries hfields hentry)
    (fun _ key hlevel => hlevel.updateField hfields key) fun _ new hlevel => hlevel.placed new

end Addressed
end Schema

namespace Item

private theorem addressed_childrenFor {ctx : Context} {path : String} {kind : FieldType} {children : Schema}
    {sample : Option Json} (h : children.Addressed) (hsample : WellFormedSample sample)
    (htemplate : kind = .array → (reconcile ctx.enterArray (.template path)
      (OrderedMap.get? children Identifier.arrayItem) (representative sample)).Everywhere Addresses)
    (hfields : ∀ entries, sample = some (.object entries) → Schema.FieldsAddressed ctx path entries) :
    Schema.Addressed (childrenFor ctx path kind children sample) := by
  rcases childrenFor_cases ctx path kind children sample with
    ⟨harray, heq⟩ | ⟨entries, -, rfl, heq⟩ | ⟨-, -, heq⟩
  · rw [heq]
    exact List.forall_mem_singleton.mpr ⟨ItemPath.isName_arrayItem, (htemplate harray).movedTo 0⟩
  · rw [heq]
    exact h.reconcileLevel hsample.distinct (hfields entries rfl)
  · rw [heq]
    exact h

/-- Reconciliation gives an item whose identifiers can stand in paths, if the identifier asked for can and those
of the item before could. -/
theorem addresses_reconcile {sample : Option Json} (hsample : WellFormedSample sample) {spec : ItemSpec}
    (hspec : IsName spec.identifier) {previous : Option Item}
    (hprevious : ∀ item, previous = some item → item.Everywhere Addresses) (ctx : Context) :
    (reconcile ctx spec previous sample).Everywhere Addresses := by
  revert ctx hprevious hspec hsample
  refine reconcile_induction (motive := fun spec previous sample => WellFormedSample sample →
    IsName spec.identifier → (∀ item, previous = some item → item.Everywhere Addresses) →
    ∀ ctx, (reconcile ctx spec previous sample).Everywhere Addresses) ?_ spec previous sample
  intro spec previous sample ihfield ihtemplate ihfresh hsample hspec hprevious ctx
  have hfields : ∀ path entries, sample = some (.object entries) → Schema.FieldsAddressed ctx path entries := by
    rintro path entries rfl key value identifier previous hget hname hold
    exact ihfield entries key value rfl hget _ previous (hsample.value hget) hname hold ctx
  have hown : IsName (reconcile ctx spec previous sample).identifier := by
    cases previous with
    | none =>
      rw [reconcile_none, build_eq]
      exact hspec
    | some item =>
      rw [(reconcile_sameField ctx spec item sample).identifier]
      exact (hprevious item rfl).here.own
  refine everywhere_addresses_iff.mpr ⟨hown, ?_⟩
  rcases reconcile_cases ctx spec previous sample with
    ⟨item, rfl, hfrozen, heq⟩ | ⟨item, rfl, hmatches, heq⟩ | ⟨-, hbuilt⟩
  · rw [heq]
    exact (everywhere_addresses_iff.mp (hprevious item rfl)).2
  · have hchildren := (everywhere_addresses_iff.mp (hprevious item rfl)).2
    rw [heq]
    refine addressed_childrenFor hchildren hsample (fun _ => ?_) (hfields _)
    exact ihtemplate item _ rfl hsample.representative ItemPath.isName_arrayItem
      (fun template htemplate => hchildren.get? htemplate) _
  · rw [hbuilt.children]
    refine addressed_childrenFor (by simp [Schema.Addressed]) hsample (fun harray => ?_) (hfields _)
    refine ihfresh _ (fun hnone => ?_) hsample.representative ItemPath.isName_arrayItem (by simp) _
    subst hnone
    rw [← hbuilt.kind_of_none, harray]

end Item

namespace Schema

/-- A schema that is parsed from a sample can be addressed by paths if the one before could. -/
theorem Addressed.parsed {previous : Schema} (h : previous.Addressed) {entries : OrderedMap Json}
    (hsample : (Json.object entries).WellFormed) (widget : String) : (parsed widget entries previous).Addressed := by
  have hroot : (Item.reconcile { widget } rootSpec previous.root? (some (.object entries))).Everywhere
      Item.Addresses :=
    Item.addresses_reconcile (wellFormedSample_some.mpr hsample) ItemPath.isName_root (fun _ hitem => h.get? hitem) _
  exact List.forall_mem_singleton.mpr ⟨ItemPath.isName_root, hroot.movedTo 0⟩

/-- Where moreover no key is given twice, paths tell the items apart. -/
theorem Addressed.named {schema : Schema} (h : schema.Addressed) (hstorable : schema.Holds Item.Storable) :
    schema.Named := by
  have hnames : ∀ {level : Schema}, (∀ entry ∈ level, IsName entry.1) →
      ∀ identifier ∈ keys level, IsName identifier := by
    intro level hlevel identifier hidentifier
    obtain ⟨item, hmem⟩ := OrderedMap.mem_keys.mp hidentifier
    exact hlevel _ hmem
  refine ⟨⟨hstorable.distinct, hnames fun entry hentry => (h entry hentry).1⟩, fun entry hentry => ?_⟩
  refine ((h entry hentry).2.and (hstorable.items entry hentry)).imp fun item hitem => ?_
  exact ⟨hitem.2.1.children, hnames hitem.1.children⟩

end Schema
end FormSchema
