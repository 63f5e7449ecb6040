import FormSchema.Proofs.Computed
import FormSchema.Proofs.Descent
import FormSchema.Proofs.DynamicPaths
import FormSchema.Proofs.Level.Kept
import FormSchema.Proofs.Numbering

/-!
Dynamic paths of items that are gone. A path is kept if it leads to an item of the new schema. That one
need not be the item it led to before: an identifier that a vanished key leaves may go to a new key in
the same step.
-/
namespace FormSchema
open OrderedMap (keys Distinct)

namespace Schema

/-- The item at the end of identifiers, and those on the way, stand for the same keys as before. -/
def Survives : Schema → Schema → List String → Prop
  | _, _, [] => True
  | old, new, identifier :: rest => ∃ before after, OrderedMap.get? old identifier = some before ∧
      OrderedMap.get? new identifier = some after ∧ before.sampleKey = after.sampleKey ∧
      Survives before.children after.children rest

private theorem survives_cons_iff {old new : Schema} {identifier : String} {before after : Item}
    (hbefore : OrderedMap.get? old identifier = some before) (hafter : OrderedMap.get? new identifier = some after)
    (rest : List String) : old.Survives new (identifier :: rest) ↔
      before.sampleKey = after.sampleKey ∧ Survives before.children after.children rest := by
  constructor
  · rintro ⟨b, a, hb, ha, hkey, hrest⟩
    obtain rfl := Option.some.inj (hbefore.symm.trans hb)
    obtain rfl := Option.some.inj (hafter.symm.trans ha)
    exact ⟨hkey, hrest⟩
  · rintro ⟨hkey, hrest⟩
    exact ⟨before, after, hbefore, hafter, hkey, hrest⟩

/-- On a level that freed the identifier of an item, the item found under it is a new one. -/
private theorem exists_added_of_get? {level : Schema} (h : level.WellKeyed) {entries : OrderedMap Json}
    (hentries : Distinct entries) {identifier : String} {old : Item}
    (hold : OrderedMap.get? level identifier = some old) (hgone : (identifier, old) ∉ level.survivors entries)
    {ctx : Context} {path : String} {item : Item}
    (hitem : OrderedMap.get? (Item.reconcileLevel ctx path level entries) identifier = some item) :
    ∃ new n, (identifier, new) ∈ level.added ctx path entries ∧ item = new.movedTo n := by
  rw [reconcileLevel_eq h hentries] at hitem
  obtain ⟨⟨name, new⟩, hnew, n, heq⟩ := mem_placed (OrderedMap.mem_of_get?_eq_some hitem)
  obtain ⟨hname, rfl⟩ := Prod.mk.inj heq
  obtain rfl : name = identifier := hname.symm
  rcases List.mem_append.mp hnew with hkept | hadded
  · obtain ⟨entry, hentry, hfollowed⟩ := List.mem_map.mp hkept
    have hname : entry.1 = name := by
      rw [← (Item.followed_sameField ctx path entries entry).1, hfollowed]
    have hsame : entry = (name, old) := h.distinct.eq_of_fst_eq (mem_survivors.mp hentry).1
      (OrderedMap.mem_of_get?_eq_some hold) hname
    exact absurd (hsame ▸ hentry) hgone
  · exact ⟨new, n, hadded, rfl⟩

/-- A new item stands for another key than the one whose identifier it has got. -/
private theorem sampleKey_ne_of_mem_added {level : Schema} (h : level.WellKeyed) {entries : OrderedMap Json}
    {identifier : String} {old new : Item} (hold : OrderedMap.get? level identifier = some old) {ctx : Context}
    {path : String} (hnew : (identifier, new) ∈ level.added ctx path entries) : old.sampleKey ≠ new.sampleKey := by
  have hmem := OrderedMap.mem_of_get?_eq_some hold
  obtain ⟨key, value, hvalue, hunknown, -, hitem⟩ := mem_added hnew
  have hkey : new.sampleKey = key := by
    rw [show new = _ from hitem]
    exact Item.build_sampleKey ..
  rw [hkey]
  rintro rfl
  cases hcustom : old.isCustomField with
  | false => exact hunknown (mem_sampledKeys.mpr ⟨_, hmem, Item.standsFor_iff.mpr ⟨hcustom, rfl⟩⟩)
  | true =>
    have hkept : identifier ∈ keys (level.survivors entries) :=
      OrderedMap.mem_keys_of_mem (mem_survivors.mpr ⟨hmem, .inl hcustom⟩)
    have hadded : identifier ∈ keys (level.added ctx path entries) := OrderedMap.mem_keys_of_mem hnew
    have hsurvivors : (level.survivors entries).WellKeyed := h.sublist List.filter_sublist
    have hfresh := Item.nodup_addedFields ctx path hsurvivors.distinct (level.newEntries entries)
    exact List.disjoint_of_nodup_append hfresh hkept hadded

end Schema

namespace Item

private theorem isSome_descend_movedTo (item : Item) (n : Int) (path : List String) :
    ((item.movedTo n).descend path).isSome = (item.descend path).isSome := by
  cases path with
  | nil => rfl
  | cons identifier rest => rw [descend_movedTo item n (List.cons_ne_nil identifier rest)]

private theorem exists_child_of_isSome_descend {item : Item} {identifier : String} {rest : List String}
    (h : (item.descend (identifier :: rest)).isSome = true) : ∃ child,
      OrderedMap.get? item.children identifier = some child ∧ (child.descend rest).isSome = true := by
  obtain ⟨found, hfound⟩ := Option.isSome_iff_exists.mp h
  obtain ⟨child, hchild, hrest⟩ := exists_child_of_descend hfound
  exact ⟨child, hchild, Option.isSome_of_eq_some hrest⟩

private theorem survives_self {item : Item} {path : List String} (h : (item.descend path).isSome = true) :
    Schema.Survives item.children item.children path := by
  induction path generalizing item with
  | nil => trivial
  | cons identifier rest ih =>
    obtain ⟨child, hchild, hrest⟩ := exists_child_of_isSome_descend h
    exact ⟨child, child, hchild, hchild, rfl, ih hrest⟩

private theorem isSome_descend_of_survives {old : Schema} {item : Item} {path : List String}
    (h : old.Survives item.children path) : (item.descend path).isSome = true := by
  induction path generalizing old item with
  | nil => rfl
  | cons identifier rest ih =>
    obtain ⟨before, after, -, hafter, -, hrest⟩ := h
    rw [descend_cons hafter]
    exact ih hrest

/-- Below an item, identifiers lead to another item once it is reconciled. -/
inductive Reassigned : Context → ItemSpec → Item → Option Json → List String → Prop
  /-- An identifier goes from a vanished key to a new one. -/
  | taken {ctx : Context} {spec : ItemSpec} {item new : Item} {entries : OrderedMap Json} {identifier : String}
      {rest : List String} (fits : item.Matches (some (.object entries))) (kind : item.fieldType = .object)
      (added : (identifier, new) ∈ Schema.added ctx spec.sourcePath item.children entries)
      (below : (new.descend rest).isSome = true) :
      Reassigned ctx spec item (some (.object entries)) (identifier :: rest)
  /-- So it is below a field that stays. -/
  | field {ctx : Context} {spec : ItemSpec} {item child : Item} {entries : OrderedMap Json} {identifier : String}
      {value : Json} {rest : List String} (fits : item.Matches (some (.object entries)))
      (kind : item.fieldType = .object) (mem : OrderedMap.get? item.children identifier = some child)
      (sampled : child.isCustomField = false) (found : OrderedMap.get? entries child.sampleKey = some value)
      (below : Reassigned ctx (.field child.sampleKey identifier spec.sourcePath) child (some value) rest) :
      Reassigned ctx spec item (some (.object entries)) (identifier :: rest)
  /-- So it is below the template of an array that stays. -/
  | template {ctx : Context} {spec : ItemSpec} {item template : Item} {sample : Option Json} {rest : List String}
      (fits : item.Matches sample) (kind : item.fieldType = .array)
      (mem : OrderedMap.get? item.children Identifier.arrayItem = some template)
      (below : Reassigned ctx.enterArray (.template spec.sourcePath) template (representative sample) rest) :
      Reassigned ctx spec item sample (Identifier.arrayItem :: rest)
  /-- Everything below an item that is built anew is new, and the same identifiers stand for other keys. -/
  | rebuilt {ctx : Context} {spec : ItemSpec} {item : Item} {sample : Option Json} {path : List String}
      (frozen : ¬ item.Frozen sample) (fits : ¬ item.Matches sample)
      (below : ((rebuild ctx spec item sample).descend path).isSome = true)
      (other : ¬ Schema.Survives item.children (rebuild ctx spec item sample).children path) :
      Reassigned ctx spec item sample path

variable {item : Item} {sample : Option Json} {path : List String} {ctx : Context} {spec : ItemSpec}

/-- There is an item at the end of reassigned identifiers, and not the one from before. -/
private theorem Reassigned.not_survives (h : Reassigned ctx spec item sample path)
    (hitem : item.Everywhere fun item => Schema.WellKeyed item.children) (hsample : WellFormedSample sample) :
    ((reconcile ctx spec (some item) sample).descend path).isSome = true ∧
      ¬ Schema.Survives item.children (reconcile ctx spec (some item) sample).children path := by
  induction h with
  | @taken ctx spec item new entries identifier rest fits kind added below =>
    have hmem : (identifier, new) ∈ Schema.followedLevel ctx spec.sourcePath item.children entries :=
      List.mem_append_right _ added
    obtain ⟨n, hnew⟩ := Schema.exists_get?_of_mem_followedLevel hitem.here hsample.distinct hmem
    rw [← fits.children_reconcile_object kind ctx spec] at hnew
    refine ⟨?_, ?_⟩
    · rw [descend_cons hnew, isSome_descend_movedTo]
      exact below
    · rintro ⟨before, after, hbefore, hafter, hkey, -⟩
      obtain rfl := Option.some.inj (hnew.symm.trans hafter)
      exact Schema.sampleKey_ne_of_mem_added hitem.here hbefore added hkey
  | @field ctx spec item child entries identifier value rest fits kind mem sampled found below ih =>
    obtain ⟨n, hnew⟩ := fits.exists_get?_sampled kind hitem.here hsample.distinct mem sampled found ctx spec
    obtain ⟨hsome, hother⟩ := ih (hitem.inside _ (OrderedMap.mem_of_get?_eq_some mem)) (hsample.value found)
    refine ⟨?_, ?_⟩
    · rw [descend_cons hnew, isSome_descend_movedTo]
      exact hsome
    · rw [Schema.survives_cons_iff mem hnew]
      exact fun hsurvives => hother hsurvives.2
  | @template ctx spec item template sample rest fits kind mem below ih =>
    have hnew := fits.get?_reconcile_array kind mem ctx spec
    obtain ⟨hsome, hother⟩ := ih (hitem.inside _ (OrderedMap.mem_of_get?_eq_some mem)) hsample.representative
    refine ⟨?_, ?_⟩
    · rw [descend_cons hnew, isSome_descend_movedTo]
      exact hsome
    · rw [Schema.survives_cons_iff mem hnew]
      exact fun hsurvives => hother hsurvives.2
  | rebuilt frozen fits below other =>
    rw [reconcile_of_changed frozen fits]
    exact ⟨below, other⟩

/-- One step further up, where the item on the way is reconciled and perhaps moved. -/
private theorem survives_cons_or {old new : Schema} {identifier : String} {before : Item} {n : Int}
    (hbefore : OrderedMap.get? old identifier = some before)
    (hafter : OrderedMap.get? new identifier = some ((reconcile ctx spec (some before) sample).movedTo n))
    (h : Schema.Survives before.children (reconcile ctx spec (some before) sample).children path ∨
      Reassigned ctx spec before sample path) :
    old.Survives new (identifier :: path) ∨ Reassigned ctx spec before sample path := by
  refine h.imp_left fun hsurvives => (Schema.survives_cons_iff hbefore hafter path).mpr ⟨?_, hsurvives⟩
  exact (reconcile_sameField ctx spec before sample).sampleKey.symm

/-- A field of an object item that fits: it is kept as it is, it follows its value, or it vanishes. -/
private theorem survives_or_reassigned_object {entries : OrderedMap Json} {before : Item} {identifier : String}
    {rest : List String} (hitem : item.Everywhere fun item => Schema.WellKeyed item.children)
    (hsample : WellFormedSample (some (.object entries))) (hfits : item.Matches (some (.object entries)))
    (hkind : item.fieldType = .object) (hbefore : OrderedMap.get? item.children identifier = some before)
    (hbelow : (before.descend rest).isSome = true)
    (hnew : ((reconcile ctx spec (some item) (some (.object entries))).descend (identifier :: rest)).isSome = true)
    (ih : ∀ value, WellFormedSample (some value) → ∀ spec,
      ((reconcile ctx spec (some before) (some value)).descend rest).isSome = true →
      Schema.Survives before.children (reconcile ctx spec (some before) (some value)).children rest ∨
        Reassigned ctx spec before (some value) rest) :
    Schema.Survives item.children (reconcile ctx spec (some item) (some (.object entries))).children
        (identifier :: rest) ∨ Reassigned ctx spec item (some (.object entries)) (identifier :: rest) := by
  by_cases hstays : (identifier, before) ∈ Schema.survivors item.children entries
  · cases hcustom : before.isCustomField with
    | true =>
      obtain ⟨n, hget⟩ := hfits.exists_get?_custom hkind hitem.here hsample.distinct hbefore hcustom ctx spec
      exact .inl ((Schema.survives_cons_iff hbefore hget rest).mpr ⟨rfl, survives_self hbelow⟩)
    | false =>
      have hkey := (Schema.mem_survivors.mp hstays).2.resolve_left (by simp [hcustom])
      obtain ⟨value, hvalue⟩ := OrderedMap.mem_keys.mp hkey
      have hfound := hsample.distinct.get?_eq_some_iff.mpr hvalue
      obtain ⟨n, hget⟩ :=
        hfits.exists_get?_sampled hkind hitem.here hsample.distinct hbefore hcustom hfound ctx spec
      rw [descend_cons hget, isSome_descend_movedTo] at hnew
      exact (survives_cons_or hbefore hget (ih value (hsample.value hfound) _ hnew)).imp_right
        (.field hfits hkind hbefore hcustom hfound)
  · obtain ⟨after, hafter, hrest⟩ := exists_child_of_isSome_descend hnew
    rw [hfits.children_reconcile_object hkind] at hafter
    obtain ⟨new, n, hadded, rfl⟩ := Schema.exists_added_of_get? hitem.here hsample.distinct hbefore hstays hafter
    rw [isSome_descend_movedTo] at hrest
    exact .inr (.taken hfits hkind hadded hrest)

/-- An item at the end of identifiers that led to one before is that one, or they are reassigned. -/
private theorem survives_or_reassigned (hitem : item.Everywhere fun item => Schema.WellKeyed item.children)
    (hsample : WellFormedSample sample) (hold : (item.descend path).isSome = true)
    (hnew : ((reconcile ctx spec (some item) sample).descend path).isSome = true) :
    Schema.Survives item.children (reconcile ctx spec (some item) sample).children path ∨
      Reassigned ctx spec item sample path := by
  induction path generalizing item sample ctx spec with
  | nil => exact .inl trivial
  | cons identifier rest ih =>
    by_cases hfrozen : item.Frozen sample
    · rw [reconcile_of_frozen hfrozen]
      exact .inl (survives_self hold)
    by_cases hfits : item.Matches sample
    · obtain ⟨before, hbefore, hbelow⟩ := exists_child_of_isSome_descend hold
      have hchild := hitem.inside _ (OrderedMap.mem_of_get?_eq_some hbefore)
      have hchildren := hfits.children_reconcile ctx spec
      rcases childrenFor_cases ctx spec.sourcePath item.fieldType item.children sample with
        ⟨harray, hlevel⟩ | ⟨entries, hobject, rfl, -⟩ | ⟨-, -, hlevel⟩
      · obtain rfl : Identifier.arrayItem = identifier := by
          obtain ⟨after, hafter, -⟩ := exists_child_of_isSome_descend hnew
          rw [hchildren, hlevel] at hafter
          exact (Prod.mk.inj (List.mem_singleton.mp (OrderedMap.mem_of_get?_eq_some hafter))).1.symm
        have hget := hfits.get?_reconcile_array harray hbefore ctx spec
        rw [descend_cons hget, isSome_descend_movedTo] at hnew
        exact (survives_cons_or hbefore hget (ih hchild hsample.representative hbelow hnew)).imp_right
          (.template hfits harray hbefore)
      · exact survives_or_reassigned_object hitem hsample hfits hobject hbefore hbelow hnew
          fun value hvalue spec => ih hchild hvalue hbelow
      · rw [hchildren, hlevel]
        exact .inl (survives_self hold)
    · rw [reconcile_of_changed hfrozen hfits] at hnew ⊢
      by_cases hsurvives : Schema.Survives item.children (rebuild ctx spec item sample).children (identifier :: rest)
      · exact .inl hsurvives
      · exact .inr (.rebuilt hfrozen hfits hnew hsurvives)

end Item

namespace Schema
variable {widget : String} {entries : OrderedMap Json} {previous : Schema}

/-- Identifiers lead to another item than before once the schema is parsed from an object. -/
def Reassigns (widget : String) (entries : OrderedMap Json) (previous : Schema) (identifiers : List String) : Prop :=
  ∃ root rest, identifiers = Identifier.root :: rest ∧ previous.root? = some root ∧
    Item.Reassigned { widget } rootSpec root (some (.object entries)) rest

private theorem isSome_find?_of_survives {old new : Schema} {identifiers : List String} (hsome : identifiers ≠ [])
    (h : old.Survives new identifiers) : (new.find? identifiers).isSome = true := by
  obtain ⟨identifier, rest, rfl⟩ := List.exists_cons_of_ne_nil hsome
  obtain ⟨_, after, -, hafter, -, hrest⟩ := h
  rw [find?_cons, hafter]
  exact Item.isSome_descend_of_survives hrest

/-- So the item at the end stands for the same key as before. -/
theorem Survives.sampleKey_eq {old new : Schema} {identifiers : List String} (h : old.Survives new identifiers) :
    (old.find? identifiers).map Item.sampleKey = (new.find? identifiers).map Item.sampleKey := by
  induction identifiers generalizing old new with
  | nil => rfl
  | cons identifier rest ih =>
    obtain ⟨before, after, hbefore, hafter, hkey, hrest⟩ := h
    rw [find?_cons, find?_cons, hbefore, hafter, Option.bind_some, Option.bind_some]
    cases rest with
    | nil => exact congrArg some hkey
    | cons next rest =>
      have hnext := ih hrest
      rwa [find?_children (List.cons_ne_nil next rest), find?_children (List.cons_ne_nil next rest)] at hnext

/-- The identifiers of an item from before are reassigned exactly if they lead to one, but not to that one. -/
theorem reassigns_iff (hprevious : previous.WellFormed) (hsample : (Json.object entries).WellFormed)
    {identifiers : List String} (hfound : (previous.find? identifiers).isSome = true) :
    previous.Reassigns widget entries identifiers ↔
      ((parsed widget entries previous).find? identifiers).isSome = true ∧
        ¬ previous.Survives (parsed widget entries previous) identifiers := by
  have hwell := wellFormedSample_some.mpr hsample
  cases identifiers with
  | nil => cases hfound
  | cons first rest =>
    rw [find?_cons] at hfound ⊢
    cases htop : OrderedMap.get? previous first with
    | none =>
      rw [htop] at hfound
      cases hfound
    | some top =>
      rw [htop, Option.bind_some] at hfound
      by_cases hname : first = Identifier.root
      · subst hname
        have hitem := hprevious.of_root? htop
        have hnew : OrderedMap.get? (parsed widget entries previous) Identifier.root =
            some ((Item.reconcile { widget } rootSpec (some top) (some (.object entries))).movedTo 0) := by
          rw [parsed, show previous.root? = some top from htop, OrderedMap.get?, if_pos rfl]
        have hkey : top.sampleKey =
            (Item.reconcile { widget } rootSpec (some top) (some (.object entries))).sampleKey :=
          (Item.reconcile_sameField ..).sampleKey.symm
        rw [hnew, Option.bind_some, Item.isSome_descend_movedTo, survives_cons_iff htop hnew]
        constructor
        · rintro ⟨root, _, ⟨⟩, hroot, hreassigned⟩
          obtain rfl := Option.some.inj (htop.symm.trans hroot)
          exact (hreassigned.not_survives hitem hwell).imp_right fun hother hsurvives => hother hsurvives.2
        · rintro ⟨hsome, hother⟩
          refine ⟨top, rest, rfl, htop, ?_⟩
          exact (Item.survives_or_reassigned hitem hwell hfound hsome).resolve_left fun hsurvives =>
            hother ⟨hkey, hsurvives⟩
      · have hnone : OrderedMap.get? (parsed widget entries previous) first = none := by
          rw [parsed, OrderedMap.get?, if_neg (Ne.symm hname)]
          rfl
        rw [hnone]
        constructor
        · rintro ⟨_, _, heq, -, -⟩
          exact absurd (List.cons.inj heq).1 hname
        · rintro ⟨⟨⟩, -⟩

/-- The item at a path and those above it stand for the same keys as before. -/
def SurvivesAt (old new : Schema) (path : String) : Prop :=
  ∃ identifiers, ItemPath.identifiers path = .ok identifiers ∧ old.Survives new identifiers

/-- A path leads to another item than before once the schema is parsed from an object. -/
def ReassignsAt (widget : String) (entries : OrderedMap Json) (previous : Schema) (path : String) : Prop :=
  ∃ identifiers, ItemPath.identifiers path = .ok identifiers ∧ previous.Reassigns widget entries identifiers

/-- Of a property other than the default value, the path stays if it leads to an item. -/
theorem mem_dynamicPaths_property_iff {schema : Schema} (h : schema.WellFormed) {current : List String}
    {itemPath property : String} (hitems : isItemProperty (itemPath ++ "." ++ property) = true)
    (hproperty : '.' ∉ property.toList) (hother : property ≠ defaultValueProperty)
    (hmem : itemPath ++ "." ++ property ∈ current) :
    itemPath ++ "." ++ property ∈ schema.dynamicPaths current ↔ ∃ item, schema.itemAt itemPath = .ok item := by
  have hdistinct : ∀ entry ∈ schema, entry.2.Everywhere fun item => Distinct item.children := fun entry hentry =>
    (h.below entry hentry).imp fun _ hlevel => hlevel.distinct
  rw [mem_dynamicPaths]
  constructor
  · rintro (⟨-, hkeeps⟩ | hbinding)
    · obtain ⟨otherPath, other, item, hpath, hdot, -, hat⟩ := (keepsPath_iff hitems).mp hkeeps
      obtain ⟨rfl, -⟩ := property_eq hproperty hdot hpath
      exact ⟨item, hat⟩
    · obtain ⟨entry, hentry, hbinding⟩ := List.mem_flatMap.mp hbinding
      obtain ⟨_, _, -, -, hpath⟩ := (Item.mem_bindingPaths (hdistinct entry hentry)).mp hbinding
      exact absurd (property_eq hproperty (by decide) hpath).2 hother
  · rintro ⟨item, hat⟩
    exact .inl ⟨hmem, (keepsPath_iff hitems).mpr ⟨itemPath, property, item, rfl, hproperty, hother, hat⟩⟩

/-- The path of a property stays if its item does, and only then unless it leads to another item now. -/
theorem compute_keeps_iff (hprevious : previous.WellFormed) (hsample : (Json.object entries).WellFormed)
    {fieldLimit : Nat} {paths : List String} {computed : Computed}
    (h : compute widget fieldLimit (some (.object entries)) previous paths = .ok computed)
    (hstatus : computed.status = .updated) {itemPath property : String} {item : Item}
    (hitem : previous.itemAt itemPath = .ok item) (hproperty : '.' ∉ property.toList)
    (hother : property ≠ defaultValueProperty) (hmem : itemPath ++ "." ++ property ∈ paths) :
    (previous.SurvivesAt computed.schema itemPath → itemPath ++ "." ++ property ∈ computed.paths) ∧
      ((itemPath ++ "." ++ property ∈ computed.paths ↔ previous.SurvivesAt computed.schema itemPath) ↔
        ¬ previous.ReassignsAt widget entries itemPath) := by
  have hcomputed : computed = ⟨.updated, parsed widget entries previous,
      (parsed widget entries previous).dynamicPaths paths⟩ := by
    obtain ⟨-, rfl⟩ | ⟨-, -, -, -, rfl⟩ | ⟨_, ⟨⟩, -, -, hcomputed⟩ := compute_cases h
    · cases hstatus
    · cases hstatus
    · exact hcomputed
  subst hcomputed
  obtain ⟨identifiers, hidentifiers, hfound⟩ := itemAt_eq_ok_iff.mp hitem
  have hsome : (previous.find? identifiers).isSome = true := Option.isSome_of_eq_some hfound
  have hnonempty : identifiers ≠ [] := by
    obtain ⟨first, rest, rfl, -⟩ := ItemPath.segments_of_identifiers hidentifiers
    exact List.cons_ne_nil first rest
  have hstays : itemPath ++ "." ++ property ∈ (parsed widget entries previous).dynamicPaths paths ↔
      ((parsed widget entries previous).find? identifiers).isSome = true := by
    rw [mem_dynamicPaths_property_iff (hprevious.parsed hsample widget) (isItemProperty_of_itemAt hitem property)
      hproperty hother hmem, Option.isSome_iff_exists]
    simp only [itemAt_eq_ok_iff, hidentifiers, Except.ok.injEq, exists_eq_left']
  have hsurvives : previous.SurvivesAt (parsed widget entries previous) itemPath ↔
      previous.Survives (parsed widget entries previous) identifiers := by
    simp only [SurvivesAt, hidentifiers, Except.ok.injEq, exists_eq_left']
  have hreassigns : previous.ReassignsAt widget entries itemPath ↔ previous.Reassigns widget entries identifiers := by
    simp only [ReassignsAt, hidentifiers, Except.ok.injEq, exists_eq_left']
  rw [hstays, hsurvives, hreassigns, reassigns_iff hprevious hsample hsome]
  have hkept : previous.Survives (parsed widget entries previous) identifiers →
      ((parsed widget entries previous).find? identifiers).isSome = true := isSome_find?_of_survives hnonempty
  refine ⟨hkept, fun hiff hreassigned => ?_, fun hsame => ⟨fun hstill => ?_, hkept⟩⟩
  · exact hreassigned.2 (hiff.mp hreassigned.1)
  · by_contra hgone
    exact hsame ⟨hstill, hgone⟩

def marked : Schema := parsed "Form" [("##", .int 1), ("a", .object [("b", .int 1)])] []

def markedSample : OrderedMap Json := [("a", .object [("b", .string "x")]), ("%%", .int 2)]

private theorem marked_wellFormed : marked.WellFormed := by decide +kernel

private theorem markedSample_wellFormed : (Json.object markedSample).WellFormed := by
  simp [markedSample, Json.WellFormed, Json.EntriesWellFormed, Distinct, keys]

private theorem compute_marked (paths : List String) : ∃ computed,
    compute "Form" 50 (some (.object markedSample)) marked paths = .ok computed ∧ computed.status = .updated ∧
      computed.schema = parsed "Form" markedSample marked ∧
      computed.paths = (parsed "Form" markedSample marked).dynamicPaths paths :=
  ⟨_, compute_of_object (by decide +kernel) (by decide +kernel), rfl, rfl, rfl⟩

theorem compute_keeps_iff_marked : marked.WellFormed ∧ (Json.object markedSample).WellFormed ∧
    ∃ computed item, compute "Form" 50 (some (.object markedSample)) marked
        ["schema.__root_schema__.children.a.children.b.isVisible"] = .ok computed ∧ computed.status = .updated ∧
      marked.itemAt "schema.__root_schema__.children.a.children.b" = .ok item ∧
      '.' ∉ "isVisible".toList ∧ "isVisible" ≠ defaultValueProperty ∧
      (marked.SurvivesAt computed.schema "schema.__root_schema__.children.a.children.b" →
        "schema.__root_schema__.children.a.children.b.isVisible" ∈ computed.paths) ∧
      (("schema.__root_schema__.children.a.children.b.isVisible" ∈ computed.paths ↔
          marked.SurvivesAt computed.schema "schema.__root_schema__.children.a.children.b") ↔
        ¬ marked.ReassignsAt "Form" markedSample "schema.__root_schema__.children.a.children.b") := by
  obtain ⟨computed, hcomputed, hstatus, -⟩ :=
    compute_marked ["schema.__root_schema__.children.a.children.b.isVisible"]
  have hfound : (marked.itemAt "schema.__root_schema__.children.a.children.b").toOption.isSome = true := by
    decide +kernel
  cases hitem : marked.itemAt "schema.__root_schema__.children.a.children.b" with
  | error fault =>
    rw [hitem] at hfound
    cases hfound
  | ok item =>
    have hproperty : '.' ∉ "isVisible".toList := by decide
    have hother : "isVisible" ≠ defaultValueProperty := by decide
    exact ⟨marked_wellFormed, markedSample_wellFormed, computed, item, hcomputed, hstatus, rfl, hproperty, hother,
      compute_keeps_iff marked_wellFormed markedSample_wellFormed hcomputed hstatus hitem hproperty hother
        (List.mem_singleton.mpr (by decide))⟩

/-- The key that vanishes leaves its identifier to the one that is new. -/
theorem not_compute_keeps_marked : marked.WellFormed ∧ (Json.object markedSample).WellFormed ∧
    (∃ item, marked.itemAt "schema.__root_schema__.children.__" = .ok item) ∧
    ∃ computed, compute "Form" 50 (some (.object markedSample)) marked
        ["schema.__root_schema__.children.__.isVisible"] = .ok computed ∧ computed.status = .updated ∧
      "schema.__root_schema__.children.__.isVisible" ∈ computed.paths ∧
      ¬ marked.SurvivesAt computed.schema "schema.__root_schema__.children.__" := by
  have hpath : ItemPath.identifiers "schema.__root_schema__.children.__" = .ok [Identifier.root, "__"] := by
    have hthrough : "schema.__root_schema__.children.__" = ItemPath.through Identifier.root ["__"] := by decide +kernel
    have hnames : ItemPath.IsName Identifier.root ∧ ItemPath.IsName "__" := by decide
    rw [hthrough]
    exact ItemPath.identifiers_through_of_names hnames.1 (List.forall_mem_singleton.mpr hnames.2)
  have hbefore : (marked.find? [Identifier.root, "__"]).map Item.sampleKey = some "##" := by decide +kernel
  have hafter : ((parsed "Form" markedSample marked).find? [Identifier.root, "__"]).map Item.sampleKey =
      some "%%" := by decide +kernel
  obtain ⟨item, hitem, -⟩ := Option.map_eq_some_iff.mp hbefore
  obtain ⟨computed, hcomputed, hstatus, hschema, hpaths⟩ :=
    compute_marked ["schema.__root_schema__.children.__.isVisible"]
  refine ⟨marked_wellFormed, markedSample_wellFormed, ⟨item, itemAt_eq_ok_iff.mpr ⟨_, hpath, hitem⟩⟩, computed,
    hcomputed, hstatus, ?_, ?_⟩
  · rw [hpaths]
    have hkeeps : (parsed "Form" markedSample marked).keepsPath
        "schema.__root_schema__.children.__.isVisible" = true := by
      decide +kernel
    exact mem_dynamicPaths_of_keepsPath (List.mem_singleton_self _) hkeeps
  · rw [hschema]
    rintro ⟨identifiers, hidentifiers, hsurvives⟩
    obtain rfl := Except.ok.inj (hpath.symm.trans hidentifiers)
    have hsame := hsurvives.sampleKey_eq
    rw [hbefore, hafter] at hsame
    exact absurd hsame (by decide)

end Schema
end FormSchema
