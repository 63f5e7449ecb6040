import FormSchema.Proofs.Parsed
import FormSchema.Proofs.Level.Kept
import FormSchema.Proofs.Reachable

/-!
Live levels: those of a parsed schema that follow an object in the sample, all the way down through
fields and templates. Each stands for exactly the keys of its object and records the values.
-/
namespace FormSchema
open OrderedMap (keys Distinct)

/-- Where there is a value, the item has its type. -/
theorem Item.reconcile_dataType {value : Json} (hvalue : value ≠ .null) (ctx : Context) (spec : ItemSpec)
    (previous : Option Item) : (reconcile ctx spec previous (some value)).dataType = DataType.of (some value) := by
  have hpresent : isNullish (some value) = false := by
    cases value with
    | null => exact absurd rfl hvalue
    | _ => rfl
  obtain ⟨item, -, hfrozen, -⟩ | ⟨item, -, hmatches, heq⟩ | ⟨-, hbuilt⟩ :=
    reconcile_cases ctx spec previous (some value)
  · rw [hfrozen.1] at hpresent
    cases hpresent
  · rw [heq]
    rcases hmatches.types with htype | ⟨hnullish, -⟩
    · exact htype.symm
    · rw [hnullish] at hpresent
      cases hpresent
  · exact hbuilt.dataType

namespace Schema

def itemFor? (level : Schema) (key : String) : Option Item :=
  (OrderedMap.values level).find? (Item.standsFor key)

private theorem WellKeyed.itemFor?_eq {level : Schema} (h : level.WellKeyed) {key : String} {item : Option Item}
    (hsome : ∀ old, item = some old → ∃ identifier, (identifier, old) ∈ level ∧ old.standsFor key = true)
    (hnone : item = none → key ∉ level.sampledKeys) : level.itemFor? key = item := by
  cases hfound : level.itemFor? key with
  | none =>
    cases item with
    | none => rfl
    | some old =>
      obtain ⟨identifier, hmem, hkey⟩ := hsome old rfl
      exact absurd hkey (by simpa using List.find?_eq_none.mp hfound old (List.mem_map_of_mem hmem))
  | some found =>
    obtain ⟨entry, hentry, rfl⟩ := List.mem_map.mp (List.mem_of_find?_eq_some hfound)
    have hkey := List.find?_some hfound
    cases item with
    | none => exact absurd (mem_sampledKeys.mpr ⟨entry, hentry, hkey⟩) (hnone rfl)
    | some old =>
      obtain ⟨identifier, hmem, hkey'⟩ := hsome old rfl
      rw [h.eq_of_standsFor hentry hmem hkey hkey']

/-- A level follows an object, and the level that was there before as far as it can. -/
structure Follows (before : Schema) (entries : OrderedMap Json) (level : Schema) : Prop where
  sampled : level.sampledKeys.Perm (keys entries)
  once : level.sampledKeys.Nodup
  values : ∀ entry ∈ level, entry.2.isCustomField = false →
    ∃ value, OrderedMap.get? entries entry.2.sampleKey = some value ∧ entry.2.sourceData = some value ∧
      (value ≠ .null → entry.2.dataType = DataType.of (some value))
  custom : ∀ entry ∈ before, entry.2.isCustomField = true →
    ∃ n, OrderedMap.get? level entry.1 = some (entry.2.movedTo n)
  order : ∃ kept new, level = kept ++ new ∧
    kept.map (fun entry => (entry.1, entry.2.sampleKey)) =
      (before.survivors entries).map (fun entry => (entry.1, entry.2.sampleKey)) ∧
    new.map (fun entry => entry.2.sampleKey) = keys (before.newEntries entries)

/-- Reconciliation makes a level follow an object. -/
theorem follows_reconcileLevel {before : Schema} (h : before.WellKeyed) {entries : OrderedMap Json}
    (hentries : Distinct entries) (ctx : Context) (path : String) :
    before.Follows entries (Item.reconcileLevel ctx path before entries) where
  sampled := by
    have hstep := inStep_reconcileLevel h hentries ctx path
    exact (List.perm_ext_iff_of_nodup hstep.keyed.sampled hentries).mpr hstep.sampled
  once := (inStep_reconcileLevel h hentries ctx path).keyed.sampled
  values entry hentry hsampled := by
    obtain ⟨old, n, -, hcustom, heq⟩ | ⟨value, previous, n, hvalue, -, -, heq⟩ :=
      mem_reconcileLevel h hentries hentry
    · rw [heq, show (old.movedTo n).isCustomField = true from hcustom] at hsampled
      cases hsampled
    · refine ⟨value, hvalue, ?_, fun hpresent => ?_⟩
      · rw [heq]
        exact Item.reconcile_sourceData ..
      · rw [heq]
        exact Item.reconcile_dataType hpresent ..
  custom _ hentry hcustom := exists_get?_custom h hentries hentry hcustom ctx path
  order := by
    obtain ⟨place, hplaced⟩ := placed_eq_map_movedTo (before.followedLevel ctx path entries)
      (keys (before.added ctx path entries))
    rw [reconcileLevel_eq h hentries, hplaced, followedLevel, List.map_append]
    refine ⟨_, _, rfl, ?_, ?_⟩
    · rw [List.map_map, List.map_map]
      refine List.map_congr_left fun entry _ => ?_
      have hsame := Item.followed_sameField ctx path entries entry
      exact Prod.ext hsame.1 hsame.2.sampleKey
    · rw [List.map_map]
      exact Item.map_sampleKey_addedFields ..

end Schema

namespace Item

/-- The level that the children of an item were reconciled with: the one below the item before, or none
if the item was built anew. -/
def levelBefore (previous : Option Item) (sample : Option Json) : Schema :=
  match previous with
  | some item => if Decision.between item sample = .unchanged then item.children else []
  | none => []

private theorem levelBefore_wellKeyed {previous : Option Item} (sample : Option Json)
    (h : ∀ item, previous = some item → Schema.WellKeyed item.children) :
    (levelBefore previous sample).WellKeyed := by
  unfold levelBefore
  split
  · split
    · exact h _ rfl
    · exact .nil
  · exact .nil

private theorem mem_levelBefore {previous : Option Item} {sample : Option Json} {entry : String × Item}
    (h : entry ∈ levelBefore previous sample) : ∃ item, previous = some item ∧ entry ∈ item.children := by
  unfold levelBefore at h
  split at h
  · split at h
    · exact ⟨_, rfl, h⟩
    · cases h
  · cases h

/-- Unless an item is frozen, its children come from its sample and the level before. -/
theorem children_reconcile {ctx : Context} {spec : ItemSpec} {previous : Option Item} {sample : Option Json}
    (h : ¬ (reconcile ctx spec previous sample).Frozen sample) : (reconcile ctx spec previous sample).children =
      childrenFor ctx spec.sourcePath (reconcile ctx spec previous sample).fieldType
        (levelBefore previous sample) sample := by
  obtain ⟨item, rfl, hfrozen, heq⟩ | ⟨item, rfl, hmatches, heq⟩ | ⟨hchanged, hbuilt⟩ :=
    reconcile_cases ctx spec previous sample
  · rw [heq] at h
    exact absurd hfrozen h
  · rw [levelBefore, if_pos (between_of_matches hmatches), heq]
    rfl
  · have hempty : levelBefore previous sample = [] := by
      cases previous with
      | none => rfl
      | some item => exact if_neg fun hdecision => (hchanged item rfl).2 (matches_of_between hdecision)
    rw [hbuilt.children, hempty]

/-- An item that follows a part of the sample, with that part and with the item it was reconciled with:
the root follows all of the sample, a field the value of its key, and a template the value that stands
for the elements. Below a frozen array nothing does. -/
inductive Live (before : Option Item) (sample : Option Json) (after : Item) :
    Option Item → Option Json → Item → Prop
  | root : Live before sample after before sample after
  | field {previous : Option Item} {entries : OrderedMap Json} {item : Item} {entry : String × Item} {value : Json}
      (parent : Live before sample after previous (some (.object entries)) item)
      (kind : item.fieldType = .object) (mem : entry ∈ item.children) (sampled : entry.2.isCustomField = false)
      (found : OrderedMap.get? entries entry.2.sampleKey = some value) :
      Live before sample after
        ((levelBefore previous (some (.object entries))).itemFor? entry.2.sampleKey) (some value) entry.2
  | template {previous : Option Item} {value : Option Json} {item template : Item}
      (parent : Live before sample after previous value item) (kind : item.fieldType = .array)
      (awake : ¬ item.Frozen value) (mem : OrderedMap.get? item.children Identifier.arrayItem = some template) :
      Live before sample after (OrderedMap.get? (levelBefore previous value) Identifier.arrayItem)
        (representative value) template

/-- An item that came out of reconciliation, from a well-formed sample and a well-keyed item. -/
structure Reconciled (previous : Option Item) (sample : Option Json) (item : Item) : Prop where
  wellFormed : WellFormedSample sample
  keyed : ∀ old, previous = some old → old.Everywhere fun item => Schema.WellKeyed item.children
  outcome : ∃ ctx spec n, item = (reconcile ctx spec previous sample).movedTo n

namespace Reconciled
variable {previous : Option Item} {sample : Option Json} {item : Item}

private theorem levelBefore_wellKeyed (h : Reconciled previous sample item) : (levelBefore previous sample).WellKeyed :=
  Item.levelBefore_wellKeyed sample fun old hold => (h.keyed old hold).here

private theorem of_mem_levelBefore (h : Reconciled previous sample item) {entry : String × Item}
    (hentry : entry ∈ levelBefore previous sample) :
    entry.2.Everywhere fun item => Schema.WellKeyed item.children := by
  obtain ⟨old, hold, hmem⟩ := mem_levelBefore hentry
  exact (h.keyed old hold).inside entry hmem

private theorem children_eq (h : Reconciled previous sample item) (hawake : ¬ item.Frozen sample) :
    ∃ ctx path, item.children = childrenFor ctx path item.fieldType (levelBefore previous sample) sample := by
  obtain ⟨ctx, spec, n, rfl⟩ := h.outcome
  exact ⟨ctx, spec.sourcePath, children_reconcile hawake⟩

theorem frozen (h : Reconciled previous sample item) (hfrozen : item.Frozen sample) :
    ∃ old, previous = some old ∧ item.children = old.children := by
  obtain ⟨ctx, spec, n, rfl⟩ := h.outcome
  obtain ⟨old, hold, -, heq⟩ | ⟨old, -, hmatches, heq⟩ | ⟨-, hbuilt⟩ := reconcile_cases ctx spec previous sample
  · rw [heq]
    exact ⟨old, hold, rfl⟩
  · rw [heq] at hfrozen
    exact absurd hfrozen hmatches.types.not_frozen
  · exact absurd hfrozen (Agrees.not_frozen (.inl hbuilt.dataType.symm))

private theorem exists_level_eq {entries : OrderedMap Json} (h : Reconciled previous (some (.object entries)) item)
    (hkind : item.fieldType = .object) : ∃ ctx path, item.children =
      reconcileLevel ctx path (levelBefore previous (some (.object entries))) entries := by
  obtain ⟨ctx, path, hchildren⟩ := h.children_eq fun hfrozen => hfrozen.ne_object entries rfl
  rw [hkind, childrenFor_object] at hchildren
  exact ⟨ctx, path, hchildren⟩

theorem field {entries : OrderedMap Json} (h : Reconciled previous (some (.object entries)) item)
    (hkind : item.fieldType = .object) {entry : String × Item} (hentry : entry ∈ item.children)
    (hsampled : entry.2.isCustomField = false) {value : Json}
    (hvalue : OrderedMap.get? entries entry.2.sampleKey = some value) :
    Reconciled ((levelBefore previous (some (.object entries))).itemFor? entry.2.sampleKey) (some value) entry.2 := by
  obtain ⟨ctx, path, hchildren⟩ := h.exists_level_eq hkind
  rw [hchildren] at hentry
  obtain ⟨old, n, -, hcustom, heq⟩ | ⟨value', old, n, hvalue', hold, hnew, heq⟩ :=
    Schema.mem_reconcileLevel h.levelBefore_wellKeyed h.wellFormed.distinct hentry
  · rw [heq, show (old.movedTo n).isCustomField = true from hcustom] at hsampled
    cases hsampled
  · obtain rfl := Option.some.inj (hvalue.symm.trans hvalue')
    have hfound := h.levelBefore_wellKeyed.itemFor?_eq (fun item hitem => ⟨entry.1, hold item hitem⟩)
      fun hnone => (hnew hnone).1
    rw [hfound]
    exact ⟨h.wellFormed.value hvalue, fun item hitem => h.of_mem_levelBefore (hold item hitem).1, ctx, _, n, heq⟩

theorem template (h : Reconciled previous sample item) (hkind : item.fieldType = .array)
    (hawake : ¬ item.Frozen sample) {template : Item}
    (htemplate : OrderedMap.get? item.children Identifier.arrayItem = some template) :
    Reconciled (OrderedMap.get? (levelBefore previous sample) Identifier.arrayItem) (representative sample)
      template := by
  obtain ⟨ctx, path, hchildren⟩ := h.children_eq hawake
  rw [hchildren, hkind, childrenFor_array, templateLevel_eq, OrderedMap.get?, if_pos rfl] at htemplate
  refine ⟨h.wellFormed.representative, fun old hold => ?_, _, _, 0, (Option.some.inj htemplate).symm⟩
  exact h.of_mem_levelBefore (OrderedMap.mem_of_get?_eq_some hold)

end Reconciled

theorem Live.reconciled {before previous : Option Item} {sample value : Option Json} {after item : Item}
    (hlive : Live before sample after previous value item) (h : Reconciled before sample after) :
    Reconciled previous value item := by
  induction hlive with
  | root => exact h
  | field parent kind mem sampled found ih => exact ih.field kind mem sampled found
  | template parent kind awake mem ih => exact ih.template kind awake mem

end Item

namespace Schema

/-- After parsing, every level that follows an object in the sample does so in full: no key is lost or
doubled, and no value is stale. Frozen items keep the level below them. -/
theorem parse_follows {previous : Schema} (hprevious : previous.WellFormed) {entries : OrderedMap Json}
    (hsample : (Json.object entries).WellFormed) (widget : String) :
    ∃ root, parse widget (some (.object entries)) previous = .ok [(Identifier.root, root)] ∧
      ∀ old value item, Item.Live previous.root? (some (.object entries)) root old value item →
        (∀ fields, value = some (.object fields) → item.fieldType = .object →
          (Item.levelBefore old value).Follows fields item.children) ∧
        (item.Frozen value → ∃ before, old = some before ∧ item.children = before.children) := by
  refine ⟨_, parse_object .., fun old value item hlive => ?_⟩
  have hroot : Item.Reconciled previous.root? (some (.object entries))
      ((Item.reconcile { widget } rootSpec previous.root? (some (.object entries))).movedTo 0) :=
    ⟨wellFormedSample_some.mpr hsample, fun _ hroot => hprevious.of_root? hroot,
      _, _, _, rfl⟩
  have hitem := hlive.reconciled hroot
  refine ⟨?_, hitem.frozen⟩
  rintro fields rfl hkind
  obtain ⟨ctx, path, hchildren⟩ := hitem.exists_level_eq hkind
  rw [hchildren]
  exact follows_reconcileLevel hitem.levelBefore_wellKeyed hitem.wellFormed.distinct ctx path

theorem parse_follows_edited : edited.WellFormed ∧ (Json.object editedSample).WellFormed ∧
    ∃ root, parse "Form" (some (.object editedSample)) edited = .ok [(Identifier.root, root)] ∧
      ∀ old value item, Item.Live edited.root? (some (.object editedSample)) root old value item →
        (∀ fields, value = some (.object fields) → item.fieldType = .object →
          (Item.levelBefore old value).Follows fields item.children) ∧
        (item.Frozen value → ∃ before, old = some before ∧ item.children = before.children) :=
  ⟨edited_wellFormed, editedSample_wellFormed, parse_follows edited_wellFormed editedSample_wellFormed "Form"⟩

def oneRow : OrderedMap Json := [("rows", .array [.object [("x", .int 1)]])]

/-- Null in the place of an array freezes it. The value that stands for its elements is now the empty
object, and still the template has the field of the element that was there. -/
theorem not_follows_below_null : (parsed "Form" oneRow []).WellFormed ∧
    ∃ root rows template : Item,
      parse "Form" (some (.object [("rows", .null)])) (parsed "Form" oneRow []) = .ok [(Identifier.root, root)] ∧
      root.fieldType = .object ∧ ("rows", rows) ∈ root.children ∧ rows.isCustomField = false ∧
      rows.sampleKey = "rows" ∧ rows.fieldType = .array ∧
      OrderedMap.get? rows.children Identifier.arrayItem = some template ∧ template.fieldType = .object ∧
      representative (some .null) = some (.object []) ∧
      ¬ (sampledKeys template.children).Perm (keys ([] : OrderedMap Json)) := by
  refine ⟨(sound_nil.parsed (by simp [oneRow, Json.WellFormed, Json.EntriesWellFormed, Json.ItemsWellFormed,
    Distinct, keys]) "Form").wellFormed, ?_⟩
  have hrows : ((parsed "Form" [("rows", .null)] (parsed "Form" oneRow [])).find? [Identifier.root, "rows"]).map
      (fun rows => (rows.isCustomField, rows.sampleKey, rows.fieldType,
        (OrderedMap.get? rows.children Identifier.arrayItem).map fun template =>
          (template.fieldType, sampledKeys template.children))) =
      some (false, "rows", .array, some (.object, ["x"])) := by
    decide +kernel
  obtain ⟨rows, hfind, hrows⟩ := Option.map_eq_some_iff.mp hrows
  obtain ⟨root, hroot, hmem⟩ := exists_parent_of_find? hfind
  simp only [Prod.mk.injEq, Option.map_eq_some_iff] at hrows
  obtain ⟨hcustom, hkey, hkind, template, htemplate, hobject, hkeys⟩ := hrows
  rw [parsed, OrderedMap.get?, if_pos rfl] at hroot
  obtain rfl := Option.some.inj hroot
  refine ⟨_, rows, template, parse_object .., by decide +kernel, OrderedMap.mem_of_get?_eq_some hmem, hcustom, hkey,
    hkind, htemplate, hobject, rfl, ?_⟩
  rw [hkeys]
  simp

end Schema
end FormSchema
