import FormSchema.Proofs.Outcome
import FormSchema.Proofs.Sample

/-!
Settled items: they agree with the samples they record, down to the leaves. Reconciliation always
ends in a settled item, and leaves one alone for the sample it records.
-/
namespace FormSchema
open OrderedMap (keys Distinct)

namespace Schema

/-- A numbered level that stands for exactly the keys of an object. -/
structure InStep (level : Schema) (entries : OrderedMap Json) : Prop where
  keyed : level.WellKeyed
  numbered : level.placed [] = level
  distinct : Distinct entries
  sampled : ∀ key, key ∈ level.sampledKeys ↔ key ∈ keys entries

theorem inStep_reconcileLevel {level : Schema} (h : level.WellKeyed) {entries : OrderedMap Json}
    (hentries : Distinct entries) (ctx : Context) (objectPath : String) :
    (Item.reconcileLevel ctx objectPath level entries).InStep entries := by
  have hkeyed := wellKeyed_followedLevel h hentries ctx objectPath
  have hnew := places_added h ctx objectPath entries
  rw [reconcileLevel_eq h hentries]
  refine ⟨hkeyed.placed _, placed_placed hkeyed.distinct hnew, hentries, fun key => ?_⟩
  rw [sampledKeys_placed]
  exact mem_sampledKeys_followedLevel

namespace InStep
variable {level : Schema} {entries : OrderedMap Json}

/-- The order of the keys makes no difference. -/
theorem of_perm (h : level.InStep entries) {other : OrderedMap Json} (hkeys : (keys other).Perm (keys entries)) :
    level.InStep other where
  keyed := h.keyed
  numbered := h.numbered
  distinct := hkeys.nodup_iff.mpr h.distinct
  sampled key := (h.sampled key).trans hkeys.symm.mem_iff

/-- A change that leaves the identity and the place of all items alone. -/
theorem map (h : level.InStep entries) {change : String × Item → String × Item}
    (hkey : ∀ entry ∈ level, (change entry).1 = entry.1)
    (hfield : ∀ entry ∈ level, (change entry).2.SameIdentity entry.2)
    (hposition : ∀ entry ∈ level, (change entry).2.position = entry.2.position) :
    InStep (level.map change) entries where
  keyed := h.keyed.map hkey hfield
  numbered := placed_map_eq_self h.keyed.distinct hkey hposition h.numbered
  distinct := h.distinct
  sampled key := by
    rw [sampledKeys_map hfield]
    exact h.sampled key

/-- Nothing vanishes from such a level, and nothing is new. -/
theorem reconcileLevel (h : level.InStep entries) (ctx : Context) (objectPath : String) :
    Item.reconcileLevel ctx objectPath level entries = level.map (Item.followed ctx objectPath entries) := by
  have hsurvivors : level.survivors entries = level := by
    apply List.filter_eq_self.mpr
    intro entry hentry
    cases hcustom : entry.2.isCustomField with
    | true => rfl
    | false =>
      have hstands := mem_sampledKeys.mpr ⟨entry, hentry, Item.standsFor_iff.mpr ⟨hcustom, rfl⟩⟩
      exact OrderedMap.contains_iff.mpr ((h.sampled _).mp hstands)
  have hnew : level.newEntries entries = [] := by
    apply List.filter_eq_nil_iff.mpr
    intro entry hentry
    have hknown := (h.sampled entry.1).mpr (OrderedMap.mem_keys_of_mem hentry)
    simpa using hknown
  have hadded : level.added ctx objectPath entries = [] := by
    rw [added, hnew, Item.addedFields]
  rw [reconcileLevel_eq h.keyed h.distinct, hadded, followedLevel, hadded, hsurvivors, List.append_nil]
  refine placed_map_eq_self h.keyed.distinct (fun entry _ => ?_) (fun entry _ => ?_) h.numbered
  · exact (Item.followed_sameField ..).1
  · exact (Item.followed_sameField ..).2.position

theorem exists_value (h : level.InStep entries) {entry : String × Item} (hentry : entry ∈ level)
    (hlive : entry.2.isCustomField = false) : ∃ value, OrderedMap.get? entries entry.2.sampleKey = some value := by
  have hstands := mem_sampledKeys.mpr ⟨entry, hentry, Item.standsFor_iff.mpr ⟨hlive, rfl⟩⟩
  obtain ⟨value, hvalue⟩ := OrderedMap.mem_keys.mp ((h.sampled _).mp hstands)
  exact ⟨value, h.distinct.get?_eq_some_iff.mpr hvalue⟩

end InStep
end Schema

namespace Item

/-- The item agrees with the sample it records, and so does everything below that follows a part of
the sample. -/
inductive Settled : Item → Prop
  | frozen {item : Item} (gone : item.Frozen item.sourceData) : Settled item
  | array {item template : Item} (agrees : item.Agrees item.sourceData) (kind : item.fieldType = .array)
      (children : item.children = [(Identifier.arrayItem, template)]) (place : template.position = 0)
      (sample : template.sourceData = representative item.sourceData) (inner : Settled template) :
      Settled item
  | object {item : Item} {entries : OrderedMap Json} (agrees : item.Agrees item.sourceData)
      (kind : item.fieldType = .object) (sample : item.sourceData = some (.object entries))
      (level : Schema.InStep item.children entries)
      (values : ∀ entry ∈ item.children, entry.2.isCustomField = false →
        OrderedMap.get? entries entry.2.sampleKey = entry.2.sourceData)
      (fields : ∀ entry ∈ item.children, entry.2.isCustomField = false → Settled entry.2) : Settled item
  | leaf {item : Item} (agrees : item.Agrees item.sourceData) (harray : item.fieldType ≠ .array)
      (hobject : item.fieldType = .object → ∀ entries, item.sourceData ≠ some (.object entries)) :
      Settled item

private theorem Agrees.matches_self {item : Item} (h : item.Agrees item.sourceData) : item.Matches item.sourceData :=
  ⟨h, elementTypeChanged_self _⟩

/-- A place among siblings makes no difference. -/
theorem Settled.movedTo {item : Item} (h : item.Settled) (p : Int) : (item.movedTo p).Settled := by
  cases h with
  | frozen gone => exact .frozen gone
  | array agrees kind children place sample inner => exact .array agrees kind children place sample inner
  | object agrees kind sample level values fields => exact .object agrees kind sample level values fields
  | leaf agrees harray hobject => exact .leaf agrees harray hobject

/-- A settled item is a fixed point of reconciliation with the sample it records. -/
theorem Settled.reconcile_eq {item : Item} (h : item.Settled) (ctx : Context) (spec : ItemSpec) :
    reconcile ctx spec (some item) item.sourceData = item := by
  induction h generalizing ctx spec with
  | frozen gone =>
    rw [reconcile_of_frozen gone, recording_self]
  | @array item template agrees kind children place sample inner ih =>
    have htemplate : reconcile ctx.enterArray (.template spec.sourcePath) (some template)
        (representative item.sourceData) = template := sample ▸ ih ..
    have hchildren : childrenFor ctx spec.sourcePath item.fieldType item.children item.sourceData =
        item.children := by
      rw [kind, childrenFor_array, children, OrderedMap.get?, if_pos rfl, htemplate, templateLevel_eq, ← place,
        movedTo_position]
    rw [reconcile_of_matches agrees.matches_self, hchildren, withChildren_self, recording_self]
  | @object item entries agrees kind sample level values fields ih =>
    have hfollowed : ∀ entry ∈ item.children, followed ctx spec.sourcePath entries entry = entry := by
      intro entry hentry
      cases hcustom : entry.2.isCustomField with
      | true => exact followed_of_custom hcustom ..
      | false =>
        obtain ⟨value, hvalue⟩ := level.exists_value hentry hcustom
        rw [followed_of_value hcustom hvalue, ← hvalue, values entry hentry hcustom, ih entry hentry hcustom]
    have hchildren : childrenFor ctx spec.sourcePath item.fieldType item.children item.sourceData =
        item.children := by
      rw [kind, sample, childrenFor_object, level.reconcileLevel]
      exact (List.map_congr_left hfollowed).trans (List.map_id' _)
    rw [reconcile_of_matches agrees.matches_self, hchildren, withChildren_self, recording_self]
  | @leaf item agrees harray hobject =>
    rw [reconcile_of_matches agrees.matches_self, childrenFor_other harray hobject, withChildren_self,
      recording_self]

theorem Settled.matches {item : Item} (h : item.Settled) (hpresent : ¬ item.Frozen item.sourceData) :
    item.Matches item.sourceData := by
  cases h with
  | frozen gone => exact absurd gone hpresent
  | array agrees => exact agrees.matches_self
  | object agrees => exact agrees.matches_self
  | leaf agrees => exact agrees.matches_self

theorem Settled.childrenFor_eq {item : Item} (h : item.Settled) (hpresent : ¬ item.Frozen item.sourceData)
    (ctx : Context) (path : String) :
    childrenFor ctx path item.fieldType item.children item.sourceData = item.children := by
  have hself := h.reconcile_eq ctx { key := item.sampleKey, identifier := item.identifier, sourcePath := path }
  rw [reconcile_of_matches (h.matches hpresent)] at hself
  exact congrArg Item.children hself

theorem reconcile_sourceData (ctx : Context) (spec : ItemSpec) (previous : Option Item)
    (sample : Option Json) : (reconcile ctx spec previous sample).sourceData = sample := by
  obtain ⟨item, -, -, heq⟩ | ⟨item, -, -, heq⟩ | ⟨-, hbuilt⟩ := reconcile_cases ctx spec previous sample
  · rw [heq]
    rfl
  · rw [heq]
    rfl
  · exact hbuilt.sourceData

/-- A field of a reconciled level records the value of its key and is settled with it. -/
private theorem settled_of_mem_reconcileLevel {ctx : Context} {path : String} {old : Schema}
    {entries : OrderedMap Json} (hold : old.WellKeyed) (hentries : Distinct entries)
    (hfields : ∀ key value spec previous, OrderedMap.get? entries key = some value →
      (∀ field, previous = some field → ∃ name, (name, field) ∈ old) →
      (reconcile ctx spec previous (some value)).Settled)
    {entry : String × Item} (hentry : entry ∈ reconcileLevel ctx path old entries)
    (hlive : entry.2.isCustomField = false) :
    OrderedMap.get? entries entry.2.sampleKey = entry.2.sourceData ∧ entry.2.Settled := by
  obtain ⟨old, n, -, hcustom, heq⟩ | ⟨value, previous, n, hvalue, hprevious, -, heq⟩ :=
    Schema.mem_reconcileLevel hold hentries hentry
  · rw [heq, show (old.movedTo n).isCustomField = true from hcustom] at hlive
    cases hlive
  · constructor
    · rw [hvalue, heq]
      exact (reconcile_sourceData ..).symm
    · rw [heq]
      apply Settled.movedTo
      exact hfields _ value _ previous hvalue fun old hold => ⟨entry.1, (hprevious old hold).1⟩

/-- Settled parts are all it takes for an item whose children were reconciled. -/
private theorem settled_of_children {ctx : Context} {path : String} {item : Item} {old : Schema}
    (hchildren : item.children = childrenFor ctx path item.fieldType old item.sourceData)
    (hagrees : item.Agrees item.sourceData) (hold : old.WellKeyed) (hsample : WellFormedSample item.sourceData)
    (htemplate : item.fieldType = .array → (reconcile ctx.enterArray (.template path)
      (OrderedMap.get? old Identifier.arrayItem) (representative item.sourceData)).Settled)
    (hfields : ∀ entries, item.sourceData = some (.object entries) → ∀ key value spec previous,
      OrderedMap.get? entries key = some value →
      (∀ field, previous = some field → ∃ name, (name, field) ∈ old) →
      (reconcile ctx spec previous (some value)).Settled) : item.Settled := by
  rcases childrenFor_cases ctx path item.fieldType old item.sourceData with
    ⟨harray, heq⟩ | ⟨entries, hobject, hrecord, heq⟩ | ⟨harray, hobject, -⟩
  · refine .array hagrees harray (hchildren.trans heq) rfl ?_ ((htemplate harray).movedTo 0)
    exact reconcile_sourceData ..
  · have hentries := (hrecord ▸ hsample).distinct
    rw [heq] at hchildren
    have hfield : ∀ entry ∈ item.children, entry.2.isCustomField = false →
        OrderedMap.get? entries entry.2.sampleKey = entry.2.sourceData ∧ entry.2.Settled := by
      intro entry hentry hlive
      rw [hchildren] at hentry
      exact settled_of_mem_reconcileLevel hold hentries (hfields entries hrecord) hentry hlive
    have hlevel : Schema.InStep item.children entries := by
      rw [hchildren]
      exact Schema.inStep_reconcileLevel hold hentries ctx path
    exact .object hagrees hobject hrecord hlevel (fun entry hentry hlive => (hfield entry hentry hlive).1)
      fun entry hentry hlive => (hfield entry hentry hlive).2
  · exact .leaf hagrees harray hobject

/-- Whatever was there before, reconciliation with a sample settles. -/
theorem settled_reconcile {sample : Option Json} (hsample : WellFormedSample sample)
    {previous : Option Item} (hprevious : ∀ item, previous = some item →
      item.Everywhere fun item => Schema.WellKeyed item.children)
    (ctx : Context) (spec : ItemSpec) : (reconcile ctx spec previous sample).Settled := by
  revert ctx hprevious hsample
  refine reconcile_induction (motive := fun spec previous sample => WellFormedSample sample →
    (∀ item, previous = some item → item.Everywhere fun item => Schema.WellKeyed item.children) →
    ∀ ctx, (reconcile ctx spec previous sample).Settled) ?_ spec previous sample
  intro spec previous sample ihfield ihtemplate ihfresh hsample hprevious ctx
  obtain ⟨item, rfl, hfrozen, heq⟩ | ⟨item, rfl, hmatches, heq⟩ | ⟨-, hbuilt⟩ :=
    reconcile_cases ctx spec previous sample
  · rw [heq]
    exact .frozen hfrozen
  · have hitem := hprevious item rfl
    rw [heq]
    refine settled_of_children rfl hmatches.types hitem.here hsample (fun _ => ?_)
      fun entries hentries key value spec' previous' hget hold => ?_
    · refine ihtemplate item _ rfl hsample.representative (fun template htemplate => ?_) _
      exact hitem.inside _ (OrderedMap.mem_of_get?_eq_some htemplate)
    · have hentries : sample = some (.object entries) := hentries
      refine ihfield entries key value hentries hget spec' previous' ((hentries ▸ hsample).value hget)
        (fun field hfield => ?_) ctx
      obtain ⟨name, hmem⟩ := hold field hfield
      exact hitem.inside _ hmem
  · have hsource := hbuilt.sourceData
    have hchildren := hbuilt.children
    have htype := hbuilt.dataType
    have hfresh : previous = none → (reconcile ctx spec previous sample).fieldType = spec.kindFor sample := by
      rintro rfl
      exact hbuilt.kind_of_none
    clear hbuilt
    generalize reconcile ctx spec previous sample = item at *
    subst hsource
    refine settled_of_children hchildren (.inl htype.symm) .nil hsample (fun harray => ?_)
      fun entries hentries key value spec' previous' hget hold => ?_
    · exact ihfresh _ (fun hnone => hfresh hnone ▸ harray) hsample.representative (by simp) _
    · refine ihfield entries key value hentries hget spec' previous' ((hentries ▸ hsample).value hget)
        (fun field hfield => ?_) ctx
      obtain ⟨name, hmem⟩ := hold field hfield
      cases hmem

end Item
end FormSchema
