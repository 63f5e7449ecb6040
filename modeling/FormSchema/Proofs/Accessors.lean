import FormSchema.Proofs.Level.Kept
import FormSchema.Proofs.Parsed
import FormSchema.Proofs.Projection

/-!
Accessors over a change of the sample. Items keep theirs, and a new item takes its key as its accessor,
whatever the items beside it have. So accessors stay different exactly as long as no new key is the accessor
of an item that stays; where one is, the projection shows one state for the two.
-/
namespace FormSchema
open OrderedMap (keys Distinct)

namespace Schema

/-- Every projection of a level has one state for each item, under its accessor. -/
def ShownWhole (level : Schema) : Prop :=
  ∀ internal, keys (FieldState.projectLevel level internal) = level.accessors

private theorem shownWhole_iff {level : Schema} : level.ShownWhole ↔ level.accessors.Nodup := by
  constructor
  · intro h
    rw [← h none]
    exact OrderedMap.distinct_ofList _
  · intro h internal
    rw [FieldState.projectLevel_eq h]
    exact FieldState.keys_projectFields ..

structure ShownWholly (schema : Schema) : Prop where
  top : schema.ShownWhole
  below : ∀ entry ∈ schema, entry.2.Everywhere fun item => ShownWhole item.children

private theorem shownWholly_iff {schema : Schema} : schema.ShownWholly ↔ schema.AccessorsDiffer := by
  constructor
  · rintro ⟨htop, hbelow⟩
    exact ⟨shownWhole_iff.mp htop, fun entry hentry => (hbelow entry hentry).imp fun _ => shownWhole_iff.mp⟩
  · rintro ⟨htop, hbelow⟩
    exact ⟨shownWhole_iff.mpr htop, fun entry hentry => (hbelow entry hentry).imp fun _ => shownWhole_iff.mpr⟩

private theorem accessors_append (a b : Schema) : accessors (a ++ b) = a.accessors ++ b.accessors := List.map_append

private theorem accessors_map {level : Schema} {change : String × Item → String × Item}
    (h : ∀ entry, (change entry).2.accessor = entry.2.accessor) : accessors (level.map change) = level.accessors := by
  rw [accessors, List.map_map]
  exact List.map_congr_left fun entry _ => h entry

private theorem accessors_placed (level : Schema) (new : List String) :
    (level.placed new).accessors = level.accessors := by
  obtain ⟨place, heq⟩ := placed_eq_map_movedTo level new
  rw [heq]
  exact accessors_map fun _ => rfl

end Schema

namespace Item

private theorem build_accessor (ctx : Context) (spec : ItemSpec) (sample : Option Json) :
    (build ctx spec sample).accessor = spec.key := by
  rw [build]
  rfl

end Item

namespace Schema
variable {level : Schema} {entries : OrderedMap Json}

private theorem accessors_added (ctx : Context) (path : String) (level : Schema) (entries : OrderedMap Json) :
    (level.added ctx path entries).accessors = keys (level.newEntries entries) := by
  have hkeys : (level.added ctx path entries).accessors =
      (level.added ctx path entries).map fun entry => entry.2.sampleKey := by
    refine List.map_congr_left fun entry hentry => ?_
    obtain ⟨key, value, -, -, -, hitem⟩ := mem_added hentry
    rw [hitem, Item.build_accessor, Item.build_sampleKey]
  rw [hkeys]
  exact Item.map_sampleKey_addedFields ..

/-- The items that stay keep their accessors, and each new one has its key. -/
theorem accessors_reconcileLevel (h : level.WellKeyed) (hentries : Distinct entries) (ctx : Context) (path : String) :
    accessors (Item.reconcileLevel ctx path level entries) =
      (level.survivors entries).accessors ++ keys (level.newEntries entries) := by
  rw [reconcileLevel_eq h hentries, accessors_placed, followedLevel, accessors_append,
    accessors_map fun entry => (Item.followed_sameField ctx path entries entry).2.accessor, accessors_added]

def Crowded (level : Schema) (entries : OrderedMap Json) : Prop :=
  ∃ entry ∈ level.survivors entries, entry.2.accessor ∈ keys (level.newEntries entries)

private theorem nodup_accessors_reconcileLevel_iff (h : level.WellKeyed) (hdiffer : level.accessors.Nodup)
    (hentries : Distinct entries) (ctx : Context) (path : String) :
    (accessors (Item.reconcileLevel ctx path level entries)).Nodup ↔ ¬ level.Crowded entries := by
  have hsurvivors : (level.survivors entries).accessors.Nodup := hdiffer.sublist (List.filter_sublist.map _)
  have hnew : (keys (level.newEntries entries)).Nodup := hentries.sublist List.filter_sublist
  rw [accessors_reconcileLevel h hentries, List.nodup_append]
  constructor
  · rintro ⟨-, -, hdisjoint⟩ ⟨entry, hentry, hkey⟩
    exact hdisjoint _ (List.mem_map_of_mem hentry) _ hkey rfl
  · intro hcrowded
    refine ⟨hsurvivors, hnew, ?_⟩
    rintro accessor haccessor key hkey rfl
    obtain ⟨entry, hentry, rfl⟩ := List.mem_map.mp haccessor
    exact hcrowded ⟨entry, hentry, hkey⟩

end Schema

namespace Item

/-- Below an item that gets this sample, a new key of an object is the accessor of an item beside it. The way
there leads through items that fit their samples; what is built anew, or left as it was, has no such key. -/
inductive Clashes : Item → Option Json → Prop
  | here {item : Item} {entries : OrderedMap Json} (fits : item.Matches (some (.object entries)))
      (object : item.fieldType = .object) (crowded : Schema.Crowded item.children entries) :
      Clashes item (some (.object entries))
  | field {item field : Item} {entries : OrderedMap Json} {identifier : String} {value : Json}
      (fits : item.Matches (some (.object entries))) (object : item.fieldType = .object)
      (mem : (identifier, field) ∈ item.children) (sampled : field.isCustomField = false)
      (found : OrderedMap.get? entries field.sampleKey = some value) (rest : Clashes field (some value)) :
      Clashes item (some (.object entries))
  | template {item template : Item} {sample : Option Json} (fits : item.Matches sample)
      (array : item.fieldType = .array)
      (mem : OrderedMap.get? item.children Identifier.arrayItem = some template)
      (rest : Clashes template (representative sample)) : Clashes item sample

/-- The items right below are told apart, by identifiers, by keys and by accessors. -/
structure Told (item : Item) : Prop where
  keyed : Schema.WellKeyed item.children
  differ : (Schema.accessors item.children).Nodup

abbrev DifferBelow (item : Item) : Prop := (Schema.accessors item.children).Nodup

private theorem everywhere_differBelow_movedTo {item : Item} {n : Int} :
    (item.movedTo n).Everywhere DifferBelow ↔ item.Everywhere DifferBelow :=
  ⟨fun h => .intro h.here h.inside, fun h => .intro h.here h.inside⟩

/-- Such a key makes two accessors the same. -/
private theorem Clashes.not_differ {item : Item} {sample : Option Json} (h : item.Clashes sample)
    (hitem : item.Everywhere Told) (hsample : WellFormedSample sample) (ctx : Context) (spec : ItemSpec) :
    ¬ (reconcile ctx spec (some item) sample).Everywhere DifferBelow := by
  induction h generalizing ctx spec with
  | @here item entries fits object crowded =>
    intro hdiffer
    have hhere := hdiffer.here
    rw [DifferBelow, fits.children_reconcile_object object,
      Schema.nodup_accessors_reconcileLevel_iff hitem.here.keyed hitem.here.differ hsample.distinct] at hhere
    exact hhere crowded
  | @field item field entries identifier value fits object mem sampled found rest ih =>
    intro hdiffer
    obtain ⟨n, hget⟩ := fits.exists_get?_sampled object hitem.here.keyed hsample.distinct
      (hitem.here.keyed.distinct.get?_of_mem mem) sampled found ctx spec
    have hbelow := hdiffer.inside _ (OrderedMap.mem_of_get?_eq_some hget)
    exact ih (hitem.inside _ mem) (hsample.value found) ctx _ (everywhere_differBelow_movedTo.mp hbelow)
  | @template item template sample fits array mem rest ih =>
    intro hdiffer
    have hbelow := hdiffer.inside _ (OrderedMap.mem_of_get?_eq_some (fits.get?_reconcile_array array mem ctx spec))
    exact ih (hitem.inside _ (OrderedMap.mem_of_get?_eq_some mem)) hsample.representative _ _
      (everywhere_differBelow_movedTo.mp hbelow)

/-- Accessors differ among the children of a reconciled item and below, if they do wherever it reconciles. -/
private theorem differ_childrenFor {old : Schema} (hkeyed : old.WellKeyed) (hdiffer : old.accessors.Nodup)
    (hbelow : ∀ entry ∈ old, entry.2.Everywhere DifferBelow) {sample : Option Json} (hsample : WellFormedSample sample)
    {kind : FieldType} {ctx : Context} {path : String}
    (htemplate : kind = .array → (reconcile ctx.enterArray (.template path)
      (OrderedMap.get? old Identifier.arrayItem) (representative sample)).Everywhere DifferBelow)
    (hlevel : ∀ entries, kind = .object → sample = some (.object entries) → ¬ old.Crowded entries)
    (hfields : ∀ entries, kind = .object → sample = some (.object entries) → ∀ key value identifier previous,
      OrderedMap.get? entries key = some value →
      (∀ field, previous = some field → (identifier, field) ∈ old ∧ field.standsFor key = true) →
      (reconcile ctx (.field key identifier path) previous (some value)).Everywhere DifferBelow) :
    (Schema.accessors (childrenFor ctx path kind old sample)).Nodup ∧
      ∀ entry ∈ childrenFor ctx path kind old sample, entry.2.Everywhere DifferBelow := by
  rcases childrenFor_cases ctx path kind old sample with ⟨harray, heq⟩ | ⟨entries, hobject, rfl, heq⟩ | ⟨-, -, heq⟩
  · rw [heq]
    exact ⟨List.nodup_singleton _,
      List.forall_mem_singleton.mpr (everywhere_differBelow_movedTo.mpr (htemplate harray))⟩
  · rw [heq]
    refine ⟨(Schema.nodup_accessors_reconcileLevel_iff hkeyed hdiffer hsample.distinct ctx path).mpr
      (hlevel entries hobject rfl), fun entry hentry => ?_⟩
    rcases Schema.mem_reconcileLevel hkeyed hsample.distinct hentry with
      ⟨field, n, hfield, -, hitem⟩ | ⟨value, previous, n, hvalue, hprevious, -, hitem⟩
    · rw [hitem, everywhere_differBelow_movedTo]
      exact hbelow _ hfield
    · rw [hitem, everywhere_differBelow_movedTo]
      exact hfields entries hobject rfl _ value entry.1 previous hvalue hprevious
  · rw [heq]
    exact ⟨hdiffer, hbelow⟩

/-- Without one, accessors stay different. -/
private theorem differ_of_not_clashes {previous : Option Item} {sample : Option Json}
    (hprevious : ∀ old, previous = some old → old.Everywhere Told ∧ ¬ old.Clashes sample)
    (hsample : WellFormedSample sample) (ctx : Context) (spec : ItemSpec) :
    (reconcile ctx spec previous sample).Everywhere DifferBelow := by
  revert ctx hprevious hsample
  refine reconcile_induction (motive := fun spec previous sample =>
    (∀ old, previous = some old → old.Everywhere Told ∧ ¬ old.Clashes sample) → WellFormedSample sample →
    ∀ ctx, (reconcile ctx spec previous sample).Everywhere DifferBelow) ?_ spec previous sample
  intro spec previous sample ihfield ihtemplate ihfresh hprevious hsample ctx
  rcases reconcile_cases ctx spec previous sample with
    ⟨item, rfl, -, heq⟩ | ⟨item, rfl, hmatches, -⟩ | ⟨-, hbuilt⟩
  · obtain ⟨hitem, -⟩ := hprevious item rfl
    rw [heq]
    exact .intro hitem.here.differ fun entry hentry => (hitem.inside entry hentry).imp fun _ => Told.differ
  · obtain ⟨hitem, hclash⟩ := hprevious item rfl
    rw [everywhere_iff, DifferBelow, hmatches.children_reconcile]
    refine differ_childrenFor hitem.here.keyed hitem.here.differ
      (fun entry hentry => (hitem.inside entry hentry).imp fun _ => Told.differ) hsample (fun harray => ?_)
      (fun entries hobject hentries => ?_) fun entries hobject hentries key value identifier field hvalue hfield => ?_
    · refine ihtemplate item _ rfl (fun template htemplate => ?_) hsample.representative _
      exact ⟨hitem.inside _ (OrderedMap.mem_of_get?_eq_some htemplate),
        fun hrest => hclash (.template hmatches harray htemplate hrest)⟩
    · subst hentries
      exact fun hcrowded => hclash (.here hmatches hobject hcrowded)
    · subst hentries
      refine ihfield entries key value rfl hvalue _ field (fun old hold => ?_) (hsample.value hvalue) ctx
      obtain ⟨hmem, hstands⟩ := hfield old hold
      obtain ⟨hsampled, rfl⟩ := standsFor_iff.mp hstands
      exact ⟨hitem.inside _ hmem, fun hrest => hclash (.field hmatches hobject hmem hsampled hvalue hrest)⟩
  · rw [everywhere_iff, DifferBelow, hbuilt.children]
    refine differ_childrenFor .nil List.nodup_nil (List.forall_mem_nil _) hsample (fun harray => ?_)
      (fun entries _ _ => ?_) fun entries _ hentries key value identifier field hvalue hfield => ?_
    · refine ihfresh _ (fun hnone => ?_) (fun _ hold => nomatch hold) hsample.representative _
      subst hnone
      rw [← hbuilt.kind_of_none, harray]
    · rintro ⟨_, hmem, -⟩
      cases hmem
    · subst hentries
      refine ihfield entries key value rfl hvalue _ field (fun old hold => ?_) (hsample.value hvalue) ctx
      cases (hfield old hold).1

end Item

namespace Schema

/-- Below the root, a new key of an object in the sample is the accessor of an item beside it. -/
def Clashes (entries : OrderedMap Json) (schema : Schema) : Prop :=
  ∃ root, schema.root? = some root ∧ root.Clashes (some (.object entries))

/-- After a parse accessors differ at every level, and no level drops the state of a field, unless a new key
is the accessor of an item that stays beside it. Then two accessors are the same, and a state is dropped. -/
theorem parse_accessorsDiffer_iff {previous : Schema} (hprevious : previous.WellFormed)
    (hdiffer : previous.AccessorsDiffer) {entries : OrderedMap Json} (hsample : (Json.object entries).WellFormed)
    (widget : String) :
    ∃ schema, parse widget (some (.object entries)) previous = .ok schema ∧
      (schema.AccessorsDiffer ↔ ¬ previous.Clashes entries) ∧ (schema.ShownWholly ↔ ¬ previous.Clashes entries) := by
  have hwell := wellFormedSample_some.mpr hsample
  have htold : ∀ root, previous.root? = some root → root.Everywhere Item.Told := by
    intro root hroot
    have hroot := OrderedMap.mem_of_get?_eq_some hroot
    exact ((hprevious.below _ hroot).and (hdiffer.below _ hroot)).imp fun _ h => ⟨h.1, h.2⟩
  have hiff : (parsed widget entries previous).AccessorsDiffer ↔ ¬ previous.Clashes entries := by
    constructor
    · rintro ⟨-, hbelow⟩ ⟨root, hroot, hclash⟩
      have hnew := Item.everywhere_differBelow_movedTo.mp (hbelow _ List.mem_cons_self)
      rw [hroot] at hnew
      exact hclash.not_differ (htold root hroot) hwell _ _ hnew
    · intro hclash
      refine ⟨List.nodup_singleton _, List.forall_mem_singleton.mpr (Item.everywhere_differBelow_movedTo.mpr ?_)⟩
      exact Item.differ_of_not_clashes
        (fun root hroot => ⟨htold root hroot, fun h => hclash ⟨root, hroot, h⟩⟩) hwell ..
  exact ⟨_, parse_object .., hiff, shownWholly_iff.trans hiff⟩

def renamed : Schema :=
  let ctx : Context := { widget := "Form" }
  let a := Item.fresh ctx (.field "a" "a" SourcePath.root) (some (.int 1)) []
  let note := Item.fresh ctx
    { ItemSpec.field "note" "note" SourcePath.root with fieldType := some .textInput, isCustomField := true } none []
  let root := Item.fresh ctx rootSpec (some (.object [("a", .int 1)]))
    [("a", { a.movedTo 0 with accessor := "b" }), ("note", note)]
  [(Identifier.root, root.movedTo 0)]

private theorem renamed_wellFormed : renamed.WellFormed := by decide +kernel

private theorem renamed_accessorsDiffer : renamed.AccessorsDiffer := by decide +kernel

private theorem renamedSample_wellFormed (key : String) (h : key ≠ "a") :
    (Json.object [("a", .int 1), (key, .int 2)]).WellFormed := by
  simp [Json.WellFormed, Json.EntriesWellFormed, Distinct, keys, h.symm]

theorem parse_accessorsDiffer_iff_renamed : renamed.WellFormed ∧ renamed.AccessorsDiffer ∧
    (Json.object [("a", .int 1), ("b", .int 2)]).WellFormed ∧
    ∃ schema, parse "Form" (some (.object [("a", .int 1), ("b", .int 2)])) renamed = .ok schema ∧
      (schema.AccessorsDiffer ↔ ¬ renamed.Clashes [("a", .int 1), ("b", .int 2)]) ∧
      (schema.ShownWholly ↔ ¬ renamed.Clashes [("a", .int 1), ("b", .int 2)]) :=
  ⟨renamed_wellFormed, renamed_accessorsDiffer, renamedSample_wellFormed "b" (by decide),
    parse_accessorsDiffer_iff renamed_wellFormed renamed_accessorsDiffer (renamedSample_wellFormed "b" (by decide)) _⟩

/-- Once the sample has the key of the note, its item gets an identifier of its own, but not an accessor, and
of the three fields two are shown. -/
theorem not_accessorsDiffer_note : renamed.WellFormed ∧ renamed.AccessorsDiffer ∧
    (Json.object [("a", .int 1), ("note", .int 2)]).WellFormed ∧
    ∃ schema, parse "Form" (some (.object [("a", .int 1), ("note", .int 2)])) renamed = .ok schema ∧
      ¬ schema.AccessorsDiffer ∧
      schema.root?.map (fun root => (keys root.children, keys (FieldState.projectLevel root.children none))) =
        some (["a", "note", "note1"], ["b", "note"]) :=
  ⟨renamed_wellFormed, renamed_accessorsDiffer, renamedSample_wellFormed "note" (by decide), _, parse_object ..,
    by decide +kernel, by decide +kernel⟩

end Schema
end FormSchema
