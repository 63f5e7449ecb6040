import FormSchema.Proofs.Level.Kept
import FormSchema.Proofs.Parsed
import FormSchema.Proofs.Stored

namespace FormSchema
open OrderedMap (keys Distinct)

namespace Schema

/-- No key is given twice, and all items have a property. -/
structure Holds (p : Item → Prop) (level : Schema) : Prop where
  distinct : Distinct level
  items : ∀ entry ∈ level, p entry.2

namespace Holds
variable {p : Item → Prop} {level : Schema}

theorem nil : Holds p [] := ⟨List.nodup_nil, by simp⟩

theorem singleton {item : Item} (h : p item) (key : String) : Holds p [(key, item)] :=
  ⟨List.nodup_singleton _, List.forall_mem_singleton.mpr h⟩

theorem get? (h : level.Holds p) {key : String} {item : Item} (hitem : OrderedMap.get? level key = some item) :
    p item := h.items _ (OrderedMap.mem_of_get?_eq_some hitem)

theorem insert (h : level.Holds p) (key : String) {item : Item} (hitem : p item) :
    Holds p (OrderedMap.insert level key item) where
  distinct := OrderedMap.distinct_insert h.distinct key item
  items entry hentry := by
    rcases OrderedMap.mem_insert hentry with hentry | rfl
    · exact h.items entry hentry
    · exact hitem

theorem erase (h : level.Holds p) (key : String) : Holds p (OrderedMap.erase level key) := by
  rw [h.distinct.erase_eq_filter key]
  exact ⟨h.distinct.sublist List.filter_sublist, fun entry hentry => h.items entry (List.mem_filter.mp hentry).1⟩

theorem placed (h : level.Holds p) (hmoved : ∀ item n, p item → p (item.movedTo (nthPosition n)))
    (new : List String) : (level.placed new).Holds p where
  distinct := by
    rw [Distinct, keys_placed]
    exact h.distinct
  items entry hentry := by
    obtain ⟨⟨key, item⟩, hmem, rfl⟩ := List.mem_map.mp hentry
    dsimp only
    split
    · exact hmoved item _ (h.items _ hmem)
    · exact h.items _ hmem

end Holds

variable {p : Item → Prop} {level : Schema} {ctx : Context} {path : String} {entries : OrderedMap Json}

/-- What holds of a level, and is kept when an item is dropped, a field is added or updated, and the level is
numbered, holds of the reconciled level. -/
theorem reconcileLevel_induction {motive : Schema → Prop} (start : motive level)
    (erase : ∀ level key, motive level → motive (OrderedMap.erase level key))
    (add : ∀ level, ∀ entry ∈ entries, motive level → motive (Item.addField ctx path level entry))
    (update : ∀ level key, motive level → motive (Item.updateField Item.reconcile ctx path entries level key))
    (number : ∀ level new, motive level → motive (Schema.placed level new)) :
    motive (Item.reconcileLevel ctx path level entries) := by
  have hkept : motive (Item.dropVanished level entries) := by
    refine List.foldlRecOn _ _ start fun level hlevel key _ => ?_
    split
    · exact erase level _ hlevel
    · exact hlevel
  refine number _ _ ?_
  refine List.foldlRecOn _ _ ?_ fun level hlevel key _ => update level key hlevel
  refine List.foldlRecOn _ _ hkept fun level hlevel entry hentry => ?_
  exact add level entry (List.mem_filter.mp hentry).1 hlevel

/-- What is asked of the fields that are reconciled with the entries of an object. -/
def Reconciles (p : Item → Prop) (ctx : Context) (path : String) (entries : OrderedMap Json) : Prop :=
  ∀ key value identifier previous, OrderedMap.get? entries key = some value →
    (∀ field, previous = some field → p field) →
    p (Item.reconcile ctx (.field key identifier path) previous (some value))

theorem Holds.addField (h : level.Holds p) (hentries : Distinct entries) (hfields : Reconciles p ctx path entries)
    {entry : String × Json} (hentry : entry ∈ entries) : (Item.addField ctx path level entry).Holds p := by
  refine h.insert _ ?_
  rw [← Item.reconcile_none]
  exact hfields _ _ _ none (hentries.get?_of_mem hentry) (by simp)

theorem Holds.updateField (h : level.Holds p) (hfields : Reconciles p ctx path entries) (key : String) :
    (Item.updateField Item.reconcile ctx path entries level key).Holds p := by
  unfold Item.updateField
  split
  · rename_i identifier value _ hvalue
    exact h.insert _ (hfields key value identifier _ hvalue fun field hfield => h.get? hfield)
  · exact h

/-- A level of items with a property becomes another one, whatever keys the items stand for. -/
theorem Holds.reconcileLevel (h : level.Holds p) (hmoved : ∀ item n, p item → p (item.movedTo (nthPosition n)))
    (hentries : Distinct entries) (hfields : Reconciles p ctx path entries) :
    (Item.reconcileLevel ctx path level entries).Holds p :=
  reconcileLevel_induction h (fun _ key hlevel => hlevel.erase key)
    (fun _ _ hentry hlevel => hlevel.addField hentries hfields hentry)
    (fun _ key hlevel => hlevel.updateField hfields key) fun _ new hlevel => hlevel.placed hmoved new

end Schema

namespace Item
open Schema (Holds Reconciles)

/-- The children of a reconciled item have a property, if those before had it and each step keeps it. -/
private theorem holds_childrenFor {p : Item → Prop}
    (hmoved : ∀ item n, p item → p (item.movedTo (Schema.nthPosition n)))
    {ctx : Context} {path : String} {kind : FieldType} {children : Schema} {sample : Option Json}
    (h : children.Holds p) (hsample : WellFormedSample sample)
    (htemplate : kind = .array → p (reconcile ctx.enterArray (.template path)
      (OrderedMap.get? children Identifier.arrayItem) (representative sample)))
    (hfields : ∀ entries, sample = some (.object entries) → Reconciles p ctx path entries) :
    Holds p (childrenFor ctx path kind children sample) := by
  rcases childrenFor_cases ctx path kind children sample with
    ⟨harray, heq⟩ | ⟨entries, -, rfl, heq⟩ | ⟨-, -, heq⟩
  · rw [heq]
    exact .singleton (hmoved _ 0 (htemplate harray)) _
  · rw [heq]
    exact h.reconcileLevel hmoved hsample.distinct (hfields entries rfl)
  · rw [heq]
    exact h

/-- Options that can be stored beside the members that all items have. -/
structure StorableOptions (options : OrderedMap Json) : Prop where
  wellFormed : (Json.object options).WellFormed
  names : ∀ name ∈ keys options, name ∉ memberNames

theorem storableOptions_defaults (kind : FieldType) : StorableOptions kind.defaults where
  wellFormed := by
    have hcollapsed : (Json.object kind.defaults).collapse = .object kind.defaults := by cases kind <;> rfl
    rw [← hcollapsed]
    exact Json.collapse_wellFormed _
  names := by cases kind <;> decide

theorem StorableOptions.insert {options : OrderedMap Json} (h : StorableOptions options) {name : String}
    (hname : name ∉ memberNames) {value : Json} (hvalue : value.WellFormed) :
    StorableOptions (OrderedMap.insert options name value) := by
  obtain ⟨hdistinct, hvalues⟩ := Json.wellFormed_object_iff.mp h.wellFormed
  refine ⟨Json.wellFormed_object_iff.mpr ⟨OrderedMap.distinct_insert hdistinct name value, ?_⟩, ?_⟩
  · intro entry hentry
    rcases OrderedMap.mem_insert hentry with hentry | rfl
    · exact hvalues entry hentry
    · exact hvalue
  · intro other hother
    obtain ⟨value, hvalue⟩ := OrderedMap.mem_keys.mp hother
    rcases OrderedMap.mem_insert hvalue with hmem | heq
    · exact h.names other (OrderedMap.mem_keys_of_mem hmem)
    · obtain ⟨rfl, -⟩ := Prod.mk.inj heq
      exact hname

private theorem StorableOptions.overlay {options base : OrderedMap Json} (h : StorableOptions options)
    (hbase : StorableOptions base) (kind : FieldType) : StorableOptions (overlayOptions kind options base) := by
  refine List.foldlRecOn _ _ hbase fun base hbase option hoption => ?_
  split
  · exact hbase
  · have hvalues := (Json.wellFormed_object_iff.mp h.wellFormed).2
    exact hbase.insert (h.names _ (OrderedMap.mem_keys_of_mem hoption)) (hvalues option hoption)

theorem Storable.options {item : Item} (h : item.Storable) : StorableOptions item.props :=
  ⟨h.here.1.props, h.here.2⟩

/-- What makes an item storable: its values, its options, its position, and the level below it. -/
private theorem storable_of_parts {item : Item} (hsource : WellFormedSample item.sourceData)
    (hdefault : WellFormedSample item.defaultValue) (hoptions : StorableOptions item.props)
    (hposition : -2147483648 ≤ item.position ∧ item.position ≤ lastPosition)
    (hchildren : Holds Storable item.children) : item.Storable :=
  .intro ⟨⟨hsource, hdefault, hchildren.distinct, hposition, hoptions.wellFormed⟩, hoptions.names⟩ hchildren.items

theorem Storable.children {item : Item} (h : item.Storable) : Holds Storable item.children :=
  ⟨h.here.1.children, h.inside⟩

theorem Storable.movedTo {item : Item} (n : Nat) (h : item.Storable) :
    (item.movedTo (Schema.nthPosition n)).Storable := by
  refine storable_of_parts h.here.1.sourceData h.here.1.defaultValue h.options ?_ h.children
  show -2147483648 ≤ Schema.nthPosition n ∧ Schema.nthPosition n ≤ lastPosition
  unfold Schema.nthPosition lastPosition
  omega

theorem Storable.recording {item : Item} (h : item.Storable) {sample : Option Json}
    (hsample : WellFormedSample sample) : (item.recording sample).Storable :=
  storable_of_parts hsample h.here.1.defaultValue h.options h.here.1.position h.children

theorem Storable.refresh {ctx : Context} {path : String} {item : Item} (h : item.Storable) {sample : Option Json}
    (hsample : WellFormedSample sample)
    (hchildren : Holds Storable (childrenFor ctx path item.fieldType item.children sample)) :
    (refresh ctx path item sample).Storable :=
  storable_of_parts hsample h.here.1.defaultValue h.options h.here.1.position hchildren

private theorem wellFormed_freshDefault (ctx : Context) (spec : ItemSpec) :
    WellFormedSample (freshDefault ctx spec) := by
  intro value hvalue
  rw [freshDefault] at hvalue
  split at hvalue
  · cases hvalue
  · cases hvalue
    trivial

private theorem storable_fresh (ctx : Context) (spec : ItemSpec) {sample : Option Json}
    (hsample : WellFormedSample sample)
    {children : Schema} (hchildren : Holds Storable children) : (fresh ctx spec sample children).Storable :=
  storable_of_parts hsample (wellFormed_freshDefault ctx spec) (storableOptions_defaults _)
    (show -2147483648 ≤ unplaced ∧ unplaced ≤ lastPosition by decide) hchildren

theorem Storable.rebuild {ctx : Context} {spec : ItemSpec} {item : Item} (h : item.Storable) {sample : Option Json}
    (hsample : WellFormedSample sample) (hchildren : Holds Storable (rebuild ctx spec item sample).children) :
    (rebuild ctx spec item sample).Storable := by
  have hbuilt : ∀ spec, StorableOptions (build ctx spec sample).props := by
    intro spec
    rw [build_eq]
    exact storableOptions_defaults _
  refine storable_of_parts ?_ ?_ ?_ h.here.1.position hchildren
  · rw [(rebuild_builtFrom ctx spec item sample).sourceData]
    exact hsample
  · intro value hvalue
    rw [rebuild_defaultValue] at hvalue
    cases hliteral : item.literalDefault with
    | none =>
      rw [hliteral] at hvalue
      exact wellFormed_freshDefault _ _ value hvalue
    | some literal =>
      rw [hliteral] at hvalue
      cases hvalue
      exact h.here.1.defaultValue _ (Option.filter_eq_some_iff.mp hliteral).1
  · rw [Item.rebuild]
    apply iteInduction (motive := StorableOptions)
    · exact fun _ => h.options
    · exact fun _ => h.options.overlay (hbuilt _) _

/-- Reconciliation with a sample keeps an item storable, whatever the level it comes from. -/
theorem storable_reconcile {sample : Option Json} (hsample : WellFormedSample sample) {previous : Option Item}
    (hprevious : ∀ item, previous = some item → item.Storable) (ctx : Context) (spec : ItemSpec) :
    (reconcile ctx spec previous sample).Storable := by
  revert ctx hprevious hsample
  refine reconcile_induction (motive := fun spec previous sample => WellFormedSample sample →
    (∀ item, previous = some item → item.Storable) → ∀ ctx, (reconcile ctx spec previous sample).Storable)
    ?_ spec previous sample
  intro spec previous sample ihfield ihtemplate ihfresh hsample hprevious ctx
  have hfields : ∀ path entries, sample = some (.object entries) → Reconciles Storable ctx path entries := by
    rintro path entries rfl key value identifier previous hget hold
    exact ihfield entries key value rfl hget _ previous (hsample.value hget) hold ctx
  -- Where an item is built anew, what was below it is of no account.
  have hbuilt : ∀ path kind, (previous = none → kind = spec.kindFor sample) →
      Holds Storable (childrenFor ctx path kind [] sample) := by
    intro path kind hkind
    refine holds_childrenFor (fun _ n h => h.movedTo n) .nil hsample (fun harray => ?_) (hfields path)
    exact ihfresh path (fun hnone => (hkind hnone).symm.trans harray) hsample.representative (by simp) _
  cases previous with
  | none =>
    rw [reconcile_none, build_eq]
    exact storable_fresh ctx spec hsample (hbuilt _ _ fun _ => rfl)
  | some item =>
    have hitem := hprevious item rfl
    by_cases hfrozen : item.Frozen sample
    · rw [reconcile_of_frozen hfrozen]
      exact hitem.recording hsample
    · by_cases hmatches : item.Matches sample
      · rw [reconcile_of_matches hmatches]
        refine hitem.refresh hsample ?_
        refine holds_childrenFor (fun _ n h => h.movedTo n) hitem.children hsample (fun _ => ?_) (hfields _)
        exact ihtemplate item _ rfl hsample.representative (fun template htemplate => hitem.children.get? htemplate) _
      · rw [reconcile_of_changed hfrozen hmatches]
        refine hitem.rebuild hsample ?_
        rw [(rebuild_builtFrom ctx spec item sample).children]
        exact hbuilt _ _ (by simp)

end Item

namespace Schema

theorem Representable.holds {schema : Schema} (h : schema.Representable) (hplain : schema.Plain) :
    schema.Holds Item.Storable := ⟨h.top, fun entry hentry => (h.below entry hentry).and (hplain entry hentry)⟩

theorem ofJson?_toJson_of_holds {schema : Schema} (h : schema.Holds Item.Storable) :
    ofJson? schema.toJson = some schema :=
  Item.levelOfJson?_written h.distinct fun entry hentry => Item.ofJson?_toJson (h.items entry hentry)

/-- A schema that is parsed from a sample can be stored if the schema before could. -/
theorem holds_parsed {previous : Schema} (h : previous.Holds Item.Storable) {entries : OrderedMap Json}
    (hsample : (Json.object entries).WellFormed) (widget : String) :
    (parsed widget entries previous).Holds Item.Storable := by
  refine .singleton (Item.Storable.movedTo 0 ?_) _
  exact Item.storable_reconcile (wellFormedSample_some.mpr hsample) (fun root hroot => h.get? hroot) ..

end Schema
end FormSchema
