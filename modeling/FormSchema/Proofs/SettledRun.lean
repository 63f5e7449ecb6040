import FormSchema.Proofs.Reachable

namespace FormSchema
open OrderedMap (keys Distinct)

namespace Item

/-- Only the type, the kind, the record and the children of an item matter. -/
theorem Settled.of_eq {a b : Item} (h : a.Settled) (htype : b.dataType = a.dataType)
    (hkind : b.fieldType = a.fieldType) (hrecord : b.sourceData = a.sourceData)
    (hchildren : b.children = a.children) : b.Settled := by
  cases a
  cases b
  subst htype hkind hrecord hchildren
  cases h with
  | frozen gone => exact .frozen gone
  | array agrees kind children place sample inner => exact .array agrees kind children place sample inner
  | object agrees kind sample level values fields => exact .object agrees kind sample level values fields
  | leaf agrees harray hobject => exact .leaf agrees harray hobject

private theorem build_sourceData (ctx : Context) (spec : ItemSpec) (sample : Option Json) :
    (build ctx spec sample).sourceData = sample := (build_builtFrom ctx spec sample).sourceData

theorem retyped_sourceData {item : Item} (hcustom : item.isCustomField = false) (ctx : Context) (source : String)
    (kind : FieldType) : (item.retyped ctx source kind).sourceData = item.sourceData := by
  rw [retyped, hcustom]
  exact build_sourceData ..

/-- An item of another kind is settled, whatever it was before. -/
theorem settled_retyped {item : Item} (hcustom : item.isCustomField = false)
    (hrecord : WellFormedSample item.sourceData) (ctx : Context) (source : String) (kind : FieldType) :
    (item.retyped ctx source kind).Settled := by
  have hbuilt : ∀ spec, (build ctx spec item.sourceData).Settled := by
    intro spec
    rw [← reconcile_none]
    exact settled_reconcile hrecord (by simp) ctx spec
  rw [retyped, hcustom]
  exact (hbuilt _).of_eq rfl rfl rfl rfl

/-- An item stays settled when one of its children gives way to a settled one that stands for the same
key, at the same place and with the same record. -/
theorem Settled.modify {item : Item} (h : item.Settled) {identifier : String} {old : Item} {change : Item → Item}
    (hold : OrderedMap.get? item.children identifier = some old) (hsame : (change old).SameIdentity old)
    (hposition : (change old).position = old.position) (hrecord : (change old).sourceData = old.sourceData)
    (hnew : old.Settled → (change old).Settled) :
    (item.withChildren (OrderedMap.modify item.children identifier change)).Settled := by
  cases h with
  -- Nothing is asked of the children of a frozen item, or of one that does not follow its sample.
  | frozen gone => exact .frozen gone
  | leaf agrees harray hobject => exact .leaf agrees harray hobject
  | @array _ template agrees kind children place sample inner =>
    rw [children, OrderedMap.get?] at hold
    split at hold
    · rename_i heq
      obtain rfl := Option.some.inj hold
      have hmodified : OrderedMap.modify item.children identifier change =
          [(Identifier.arrayItem, change template)] := by
        rw [children, OrderedMap.modify, OrderedMap.get?, if_pos heq]
        exact if_pos heq
      exact .array agrees kind hmodified (hposition.trans place) (hrecord.trans sample) (hnew inner)
    · cases hold
  | @object _ entries agrees kind sample level values fields =>
    have hdistinct := level.keyed.distinct
    have hmem := OrderedMap.mem_of_get?_eq_some hold
    have hlevel : Schema.InStep (OrderedMap.modify item.children identifier change) entries := by
      rw [hdistinct.modify_eq_map hold]
      apply level.map
      case hkey => exact fun entry _ => OrderedMap.fst_changed identifier _ entry
      case hfield => exact hdistinct.rel_changed hold (fun _ => ⟨rfl, rfl, rfl⟩) hsame
      case hposition =>
        exact hdistinct.rel_changed hold (r := fun a b => a.position = b.position) (fun _ => rfl) hposition
    refine .object agrees kind sample hlevel (fun entry hentry hlive => ?_) fun entry hentry hlive => ?_
    · obtain rfl | hentry := OrderedMap.mem_modify hold hentry
      · rw [hrecord, hsame.sampleKey]
        exact values _ hmem (hsame.isCustomField.symm.trans hlive)
      · exact values entry hentry hlive
    · obtain rfl | hentry := OrderedMap.mem_modify hold hentry
      · exact hnew (fields _ hmem (hsame.isCustomField.symm.trans hlive))
      · exact fields entry hentry hlive

/-- What an item below is replaced by does not unsettle those above it. -/
theorem Settled.replace {item : Item} (h : item.Settled) {identifiers : List String} {old new : Item}
    (hold : Schema.find? item.children identifiers = some old) (hsame : new.SameIdentity old)
    (hposition : new.position = old.position) (hrecord : new.sourceData = old.sourceData) (hnew : new.Settled) :
    (item.withChildren (Schema.replace item.children new identifiers)).Settled := by
  induction identifiers generalizing item with
  | nil => cases hold
  | cons identifier rest ih =>
    cases rest with
    | nil => exact h.modify hold hsame hposition hrecord fun _ => hnew
    | cons next rest =>
      obtain ⟨parent, hparent, hchild⟩ := Schema.exists_parent_of_find? hold
      exact h.modify hparent ⟨rfl, rfl, rfl⟩ rfl rfl fun hsettled => ih hsettled hchild

end Item

namespace Schema

/-- A regular schema whose root, if there is one, is the settled item of an object. -/
structure Settled (schema : Schema) : Prop where
  sound : schema.Sound none
  items : ∀ entry ∈ schema, entry.2.Settled ∧ entry.2.position = 0 ∧
    ∃ entries, entry.2.sourceData = some (.object entries)

namespace Settled
variable {schema : Schema}

theorem parsed (h : schema.Settled) {entries : OrderedMap Json} (hsample : (Json.object entries).WellFormed)
    (widget : String) : (schema.parsed widget entries).Settled := by
  refine ⟨h.sound.parsed hsample widget, fun entry hentry => ?_⟩
  obtain ⟨root, hparse, hsettled, hplace, hrecord⟩ := exists_settled_of_parse h.sound.wellFormed hsample widget
  rw [parse_object] at hparse
  rw [Except.ok.inj hparse] at hentry
  obtain rfl := List.mem_singleton.mp hentry
  exact ⟨hsettled, hplace, entries, hrecord⟩

theorem modify (h : schema.Settled) {identifier : String} {old : Item} {change : Item → Item}
    (hold : OrderedMap.get? schema identifier = some old) (hposition : (change old).position = old.position)
    (hrecord : (change old).sourceData = old.sourceData) (hnew : old.Settled → (change old).Settled) :
    ∀ entry ∈ OrderedMap.modify schema identifier change, entry.2.Settled ∧ entry.2.position = 0 ∧
      ∃ entries, entry.2.sourceData = some (.object entries) := by
  intro entry hentry
  obtain rfl | hentry := OrderedMap.mem_modify hold hentry
  · obtain ⟨hsettled, hplace, entries, hobject⟩ := h.items _ (OrderedMap.mem_of_get?_eq_some hold)
    exact ⟨hnew hsettled, hposition.trans hplace, entries, hrecord.trans hobject⟩
  · exact h.items entry hentry

/-- Choosing a kind settles the item and leaves the others settled. -/
theorem retyped (h : schema.Settled) {identifiers : List String} {item : Item}
    (hitem : schema.find? identifiers = some item) (ctx : Context) (source : String) (kind : FieldType) :
    (schema.replace (item.retyped ctx source kind) identifiers).Settled := by
  obtain ⟨hsound, hcustom⟩ := h.sound.find? hitem
  have hsame := Item.retyped_sameIdentity ctx source kind item
  have hrecord := Item.retyped_sourceData hcustom ctx source kind
  have hnew := Item.settled_retyped hcustom hsound.here.record ctx source kind
  refine ⟨h.sound.replace hitem hsame rfl (Item.everywhere_sound_retyped hsound hcustom ..), ?_⟩
  match identifiers with
  | [] => cases hitem
  | [identifier] => exact h.modify hitem rfl hrecord fun _ => hnew
  | identifier :: next :: rest =>
    obtain ⟨parent, hparent, hchild⟩ := exists_parent_of_find? hitem
    exact h.modify hparent rfl rfl fun hsettled => hsettled.replace hchild hsame rfl hrecord hnew

end Settled

theorem Sound.eq_singleton {schema : Schema} (h : schema.Sound none) {item : Item}
    (hitem : schema.root? = some item) : schema = [(Identifier.root, item)] := by
  obtain rfl | hkeys := h.regular.root rfl
  · cases hitem
  · obtain ⟨entry, rfl, hkey⟩ := List.map_eq_singleton_iff.mp hkeys
    have hentry := List.mem_singleton.mp (OrderedMap.mem_of_get?_eq_some hitem)
    rw [hentry]

end Schema

/-- The schema is settled after every run. -/
theorem run_settled {steps : List Step} (h : ∀ step ∈ steps, WellFormedSample step.sample) : (run steps).Settled :=
  run_induction ⟨Schema.sound_nil, by simp⟩
    (fun _ widget _ hschema hsample => hschema.parsed hsample widget)
    (fun _ _ _ ctx source kind hschema hitem => hschema.retyped hitem ctx source kind) h

end FormSchema
