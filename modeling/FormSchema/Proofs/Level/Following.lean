import FormSchema.Proofs.Identifier
import FormSchema.Proofs.Level.Keyed

/-!
Reconciliation of one level. Its three passes (drop, add, update) come to this: the items whose keys
are still there stay in their order and follow the new values, fresh items come after them, and the
whole is numbered.
-/
namespace FormSchema
open OrderedMap (keys Distinct)

namespace Schema

/-- Dropping the item of one key. -/
private theorem drop_eq_filter {level : Schema} (h : level.WellKeyed) (key : String) :
    (match level.identifierFor? key with
      | some identifier => OrderedMap.erase level identifier
      | none => level) = level.filter fun entry => !entry.2.standsFor key := by
  by_cases hmem : key ∈ level.sampledKeys
  · obtain ⟨entry, hentry, hkey⟩ := mem_sampledKeys.mp hmem
    rw [h.identifierFor?_eq_some hentry hkey]
    refine (h.distinct.erase_eq_filter entry.1).trans (List.filter_congr fun other hother => ?_)
    by_cases heq : other = entry
    · simp [heq, hkey]
    · have hne : other.1 ≠ entry.1 := fun hfst => heq (h.distinct.eq_of_fst_eq hother hentry hfst)
      have hother' : ¬ other.2.standsFor key = true := fun hstands =>
        heq (h.eq_of_standsFor hother hentry hstands hkey)
      simp [hne, hother']
  · have hnone : ∀ entry ∈ level, ¬ entry.2.standsFor key = true := fun entry hentry hkey =>
      hmem (mem_sampledKeys.mpr ⟨entry, hentry, hkey⟩)
    rw [identifierFor?_eq_none hnone]
    refine (List.filter_eq_self.mpr fun entry hentry => ?_).symm
    simpa using hnone entry hentry

/-- The items that an object leaves: custom ones, and those whose keys it has. -/
def survivors (level : Schema) (entries : OrderedMap Json) : Schema :=
  level.filter fun entry => entry.2.isCustomField || OrderedMap.contains entries entry.2.sampleKey

private theorem dropVanished_eq {level : Schema} (h : level.WellKeyed) (entries : OrderedMap Json) :
    Item.dropVanished level entries = level.survivors entries := by
  have hfold : ∀ (vanished : List String) {level : Schema}, level.WellKeyed →
      vanished.foldl (fun level key =>
        match level.identifierFor? key with
        | some identifier => OrderedMap.erase level identifier
        | none => level) level =
      level.filter fun entry => entry.2.isCustomField || !vanished.contains entry.2.sampleKey := by
    intro vanished
    induction vanished with
    | nil => intro level _; simp
    | cons key rest ih =>
      intro level h
      rw [List.foldl_cons, drop_eq_filter h key, ih (h.sublist List.filter_sublist), List.filter_filter]
      apply List.filter_congr
      intro entry _
      cases hcustom : entry.2.isCustomField <;> simp [Item.standsFor, hcustom, Bool.and_comm, eq_comm]
  refine (hfold _ h).trans (List.filter_congr fun entry hentry => ?_)
  cases hcustom : entry.2.isCustomField with
  | true => rfl
  | false =>
    have hmem : entry.2.sampleKey ∈ level.sampledKeys :=
      mem_sampledKeys.mpr ⟨entry, hentry, Item.standsFor_iff.mpr ⟨hcustom, rfl⟩⟩
    simp [hmem]

end Schema

namespace Item

/-- The entry of an item after it has followed the value of its key. -/
def followed (ctx : Context) (objectPath : String) (entries : OrderedMap Json) (entry : String × Item) :
    String × Item :=
  if entry.2.isCustomField then entry
  else match OrderedMap.get? entries entry.2.sampleKey with
    | some value => (entry.1, reconcile ctx (.field entry.2.sampleKey entry.1 objectPath)
        (some entry.2) (some value))
    | none => entry

theorem followed_of_custom {entry : String × Item} (h : entry.2.isCustomField = true) (ctx : Context)
    (objectPath : String) (entries : OrderedMap Json) : followed ctx objectPath entries entry = entry := by
  rw [followed, if_pos h]

theorem followed_of_value {entry : String × Item} (h : entry.2.isCustomField = false)
    {entries : OrderedMap Json} {value : Json} (hvalue : OrderedMap.get? entries entry.2.sampleKey = some value)
    (ctx : Context) (objectPath : String) : followed ctx objectPath entries entry =
      (entry.1, reconcile ctx (.field entry.2.sampleKey entry.1 objectPath) (some entry.2) (some value)) := by
  rw [followed, h, hvalue]
  rfl

theorem followed_sameField (ctx : Context) (objectPath : String) (entries : OrderedMap Json)
    (entry : String × Item) : (followed ctx objectPath entries entry).1 = entry.1 ∧
      (followed ctx objectPath entries entry).2.SameField entry.2 := by
  unfold followed
  split
  · exact ⟨rfl, .refl _⟩
  · split
    · exact ⟨rfl, reconcile_sameField ..⟩
    · exact ⟨rfl, .refl _⟩

/-- Updating the item of one key. -/
private theorem updateField_eq_map {level : Schema} (h : level.WellKeyed) (ctx : Context)
    (objectPath : String) (entries : OrderedMap Json) (key : String) :
    updateField reconcile ctx objectPath entries level key = level.map fun entry =>
      if entry.2.standsFor key then followed ctx objectPath entries entry else entry := by
  have hfollowed : ∀ {entry : String × Item}, entry.2.standsFor key = true →
      followed ctx objectPath entries entry = match OrderedMap.get? entries key with
        | some value => (entry.1, reconcile ctx (.field key entry.1 objectPath) (some entry.2) (some value))
        | none => entry := by
    intro entry hkey
    obtain ⟨hcustom, rfl⟩ := standsFor_iff.mp hkey
    rw [followed, hcustom]
    rfl
  by_cases hmem : key ∈ level.sampledKeys
  · obtain ⟨entry, hentry, hkey⟩ := Schema.mem_sampledKeys.mp hmem
    rw [updateField, h.identifierFor?_eq_some hentry hkey]
    cases hvalue : OrderedMap.get? entries key with
    | none =>
      refine ((List.map_congr_left fun other _ => ?_).trans (List.map_id' level)).symm
      split
      · rename_i hother
        rw [hfollowed hother, hvalue]
      · rfl
    | some value =>
      dsimp only
      rw [h.distinct.insert_eq_map (OrderedMap.mem_keys_of_mem hentry), h.distinct.get?_of_mem hentry]
      apply List.map_congr_left
      intro other hother
      by_cases heq : other = entry
      · rw [heq, if_pos rfl, if_pos hkey, hfollowed hkey, hvalue]
      · have hne : other.1 ≠ entry.1 := fun hfst => heq (h.distinct.eq_of_fst_eq hother hentry hfst)
        have hnotkey : ¬ other.2.standsFor key = true := fun hstands =>
          heq (h.eq_of_standsFor hother hentry hstands hkey)
        rw [if_neg hne, if_neg hnotkey]
  · have hnone : ∀ entry ∈ level, ¬ entry.2.standsFor key = true := fun entry hentry hkey =>
      hmem (Schema.mem_sampledKeys.mpr ⟨entry, hentry, hkey⟩)
    rw [updateField, Schema.identifierFor?_eq_none hnone]
    exact ((List.map_congr_left fun entry hentry => if_neg (hnone entry hentry)).trans
      (List.map_id' level)).symm

/-- Updating the items of several keys, each once. -/
private theorem foldl_updateField {known : List String} (hknown : known.Nodup) {level : Schema}
    (h : level.WellKeyed) (ctx : Context) (objectPath : String) (entries : OrderedMap Json) :
    known.foldl (updateField reconcile ctx objectPath entries) level = level.map fun entry =>
      if entry.2.sampleKey ∈ known then followed ctx objectPath entries entry else entry := by
  induction known generalizing level with
  | nil => simp
  | cons key rest ih =>
    obtain ⟨hkey, hrest⟩ := List.nodup_cons.mp hknown
    have hstep : ∀ entry : String × Item,
        ((if entry.2.standsFor key then followed ctx objectPath entries entry else entry).1 = entry.1) ∧
        (if entry.2.standsFor key then followed ctx objectPath entries entry else entry).2.SameIdentity
          entry.2 := by
      intro entry
      split
      · exact (followed_sameField ..).imp_right SameField.sameIdentity
      · exact ⟨rfl, rfl, rfl, rfl⟩
    rw [List.foldl_cons, updateField_eq_map h,
      ih hrest (h.map (fun entry _ => (hstep entry).1) fun entry _ => (hstep entry).2), List.map_map]
    apply List.map_congr_left
    intro entry _
    rw [Function.comp_apply, (hstep entry).2.sampleKey]
    by_cases hstands : entry.2.standsFor key = true
    · obtain ⟨-, rfl⟩ := standsFor_iff.mp hstands
      rw [if_neg hkey, if_pos hstands, if_pos List.mem_cons_self]
    · rw [if_neg hstands]
      by_cases hcustom : entry.2.isCustomField = true
      · have hself : followed ctx objectPath entries entry = entry := if_pos hcustom
        rw [hself, ite_self, ite_self]
      · have hne : entry.2.sampleKey ≠ key := fun heq =>
          hstands (standsFor_iff.mpr ⟨by simpa using hcustom, heq⟩)
        simp only [List.mem_cons, hne, false_or]

def addedFields (ctx : Context) (objectPath : String) : List String → List (String × Json) → Schema
  | _, [] => []
  | taken, (key, value) :: rest =>
    let identifier := Identifier.ofKey key taken
    (identifier, build ctx (.field key identifier objectPath) (some value)) ::
      addedFields ctx objectPath (taken ++ [identifier]) rest

theorem foldl_addField (ctx : Context) (objectPath : String) (level : Schema)
    (entries : List (String × Json)) : entries.foldl (addField ctx objectPath) level =
      level ++ addedFields ctx objectPath (keys level) entries := by
  induction entries generalizing level with
  | nil => simp [addedFields]
  | cons entry rest ih =>
    obtain ⟨key, value⟩ := entry
    rw [List.foldl_cons, addField, OrderedMap.insert_of_notMem (Identifier.ofKey_notMem _ _), ih]
    simp [addedFields]

theorem mem_addedFields {ctx : Context} {objectPath : String} {taken : List String}
    {entries : List (String × Json)} {entry : String × Item}
    (h : entry ∈ addedFields ctx objectPath taken entries) :
    ∃ key value, (key, value) ∈ entries ∧ (∃ taken, entry.1 = Identifier.ofKey key taken) ∧
      entry.2 = build ctx (.field key entry.1 objectPath) (some value) := by
  induction entries generalizing taken with
  | nil => simp [addedFields] at h
  | cons first rest ih =>
    obtain ⟨key, value⟩ := first
    rw [addedFields] at h
    rcases List.mem_cons.mp h with rfl | h
    · exact ⟨key, value, List.mem_cons_self, ⟨taken, rfl⟩, rfl⟩
    · obtain ⟨key, value, hmem, hrest⟩ := ih h
      exact ⟨key, value, List.mem_cons_of_mem _ hmem, hrest⟩

/-- The new identifiers differ from each other and from those taken. -/
theorem nodup_addedFields (ctx : Context) (objectPath : String) {taken : List String} (h : taken.Nodup)
    (entries : List (String × Json)) :
    (taken ++ keys (addedFields ctx objectPath taken entries)).Nodup := by
  induction entries generalizing taken with
  | nil => simpa [addedFields] using h
  | cons entry rest ih =>
    obtain ⟨key, value⟩ := entry
    have htaken : (taken ++ [Identifier.ofKey key taken]).Nodup := by
      refine List.nodup_append.mpr ⟨h, by simp, fun a ha b hb heq => ?_⟩
      rw [List.mem_singleton.mp hb] at heq
      exact Identifier.ofKey_notMem key taken (heq ▸ ha)
    simpa [addedFields] using ih htaken

theorem map_sampleKey_addedFields (ctx : Context) (objectPath : String) (taken : List String)
    (entries : List (String × Json)) :
    (addedFields ctx objectPath taken entries).map (fun entry => entry.2.sampleKey) = keys entries := by
  induction entries generalizing taken with
  | nil => rfl
  | cons entry rest ih =>
    obtain ⟨key, value⟩ := entry
    rw [addedFields, List.map_cons, ih, build_sampleKey]
    rfl

end Item

namespace Schema

def newEntries (level : Schema) (entries : OrderedMap Json) : OrderedMap Json :=
  entries.filter fun entry => !level.sampledKeys.contains entry.1

def added (ctx : Context) (objectPath : String) (level : Schema) (entries : OrderedMap Json) : Schema :=
  Item.addedFields ctx objectPath (keys (level.survivors entries)) (level.newEntries entries)

theorem mem_survivors {level : Schema} {entries : OrderedMap Json} {entry : String × Item} :
    entry ∈ level.survivors entries ↔
      entry ∈ level ∧ (entry.2.isCustomField = true ∨ entry.2.sampleKey ∈ keys entries) := by
  rw [survivors, List.mem_filter, Bool.or_eq_true, OrderedMap.contains_iff]

private theorem mem_newEntries {level : Schema} {entries : OrderedMap Json} {entry : String × Json} :
    entry ∈ level.newEntries entries ↔ entry ∈ entries ∧ entry.1 ∉ level.sampledKeys := by
  simp [newEntries]

/-- A new item stands for a key that the level had no item for. -/
theorem mem_added {ctx : Context} {objectPath : String} {level : Schema} {entries : OrderedMap Json}
    {entry : String × Item} (h : entry ∈ level.added ctx objectPath entries) :
    ∃ key value, (key, value) ∈ entries ∧ key ∉ level.sampledKeys ∧
      (∃ taken, entry.1 = Identifier.ofKey key taken) ∧
      entry.2 = Item.build ctx (.field key entry.1 objectPath) (some value) := by
  obtain ⟨key, value, hmem, hname, hitem⟩ := Item.mem_addedFields h
  exact ⟨key, value, (mem_newEntries.mp hmem).1, (mem_newEntries.mp hmem).2, hname, hitem⟩

private theorem sampledKeys_added (ctx : Context) (objectPath : String) (level : Schema)
    (entries : OrderedMap Json) :
    (level.added ctx objectPath entries).sampledKeys = keys (level.newEntries entries) := by
  have hall : (level.added ctx objectPath entries).filter (fun entry => !entry.2.isCustomField) =
      level.added ctx objectPath entries := by
    apply List.filter_eq_self.mpr
    intro entry hentry
    obtain ⟨key, value, -, -, -, hitem⟩ := mem_added hentry
    rw [hitem, Item.build_isCustomField]
    rfl
  rw [sampledKeys_eq, hall]
  exact Item.map_sampleKey_addedFields ..

/-- The level after dropping and adding. -/
private theorem wellKeyed_grown {level : Schema} (h : level.WellKeyed) {entries : OrderedMap Json}
    (hentries : Distinct entries) (ctx : Context) (objectPath : String) :
    WellKeyed (level.survivors entries ++ level.added ctx objectPath entries) := by
  have hkept : (level.survivors entries).WellKeyed := h.sublist List.filter_sublist
  refine ⟨?_, fun entry hentry => ?_, ?_⟩
  · rw [Distinct, OrderedMap.keys_append]
    exact Item.nodup_addedFields ctx objectPath hkept.distinct _
  · rcases List.mem_append.mp hentry with hentry | hentry
    · exact hkept.named entry hentry
    · obtain ⟨key, value, -, -, -, hitem⟩ := mem_added hentry
      rw [hitem]
      exact Item.build_identifier ..
  · rw [sampledKeys_append, sampledKeys_added]
    refine List.nodup_append.mpr ⟨hkept.sampled, hentries.sublist List.filter_sublist, ?_⟩
    rintro key hkey other hother rfl
    obtain ⟨entry, hentry, hstands⟩ := mem_sampledKeys.mp hkey
    obtain ⟨value, hvalue⟩ := OrderedMap.mem_keys.mp hother
    exact (mem_newEntries.mp hvalue).2 (mem_sampledKeys.mpr ⟨entry, (mem_survivors.mp hentry).1, hstands⟩)

def followedLevel (ctx : Context) (objectPath : String) (level : Schema) (entries : OrderedMap Json) :
    Schema :=
  (level.survivors entries).map (Item.followed ctx objectPath entries) ++
    level.added ctx objectPath entries

private theorem keys_followedLevel (ctx : Context) (objectPath : String) (level : Schema)
    (entries : OrderedMap Json) : keys (level.followedLevel ctx objectPath entries) =
      keys (level.survivors entries) ++ keys (level.added ctx objectPath entries) := by
  rw [followedLevel, OrderedMap.keys_append,
    OrderedMap.keys_map_of_fst _ fun entry _ => (Item.followed_sameField ctx objectPath entries entry).1]

/-- Only items of keys known before follow a value. -/
private theorem followedLevel_eq_map (ctx : Context) (objectPath : String) (level : Schema)
    (entries : OrderedMap Json) : level.followedLevel ctx objectPath entries =
      (level.survivors entries ++ level.added ctx objectPath entries).map fun entry =>
        if entry.2.sampleKey ∈ level.sampledKeys then Item.followed ctx objectPath entries entry
        else entry := by
  rw [List.map_append]
  refine congr (congrArg _ (List.map_congr_left fun entry hentry => ?_)) ?_
  · by_cases hcustom : entry.2.isCustomField = true
    · rw [Item.followed, if_pos hcustom, ite_self]
    · refine (if_pos (mem_sampledKeys.mpr ⟨entry, (mem_survivors.mp hentry).1, ?_⟩)).symm
      exact Item.standsFor_iff.mpr ⟨by simpa using hcustom, rfl⟩
  · refine ((List.map_congr_left fun entry hentry => ?_).trans (List.map_id' _)).symm
    obtain ⟨key, value, -, hnew, -, hitem⟩ := mem_added hentry
    rw [hitem, Item.build_sampleKey]
    exact if_neg hnew

theorem wellKeyed_followedLevel {level : Schema} (h : level.WellKeyed) {entries : OrderedMap Json}
    (hentries : Distinct entries) (ctx : Context) (objectPath : String) :
    (level.followedLevel ctx objectPath entries).WellKeyed := by
  rw [followedLevel_eq_map]
  refine (wellKeyed_grown h hentries ctx objectPath).map (fun entry _ => ?_) fun entry _ => ?_
  · split
    · exact (Item.followed_sameField ..).1
    · rfl
  · split
    · exact (Item.followed_sameField ..).2.sameIdentity
    · exact ⟨rfl, rfl, rfl⟩

theorem places_added {level : Schema} (h : level.WellKeyed) (ctx : Context) (objectPath : String)
    (entries : OrderedMap Json) : (level.followedLevel ctx objectPath entries).Places
      (keys (level.added ctx objectPath entries)) := by
  have hkept : (level.survivors entries).WellKeyed := h.sublist List.filter_sublist
  have hnodup := Item.nodup_addedFields ctx objectPath hkept.distinct (level.newEntries entries)
  refine ⟨(List.nodup_append.mp hnodup).2.1, fun key hkey => ?_⟩
  rw [keys_followedLevel]
  exact List.mem_append_right _ hkey

/-- One level of reconciliation in closed form. -/
theorem reconcileLevel_eq {level : Schema} (h : level.WellKeyed) {entries : OrderedMap Json}
    (hentries : Distinct entries) (ctx : Context) (objectPath : String) :
    Item.reconcileLevel ctx objectPath level entries =
      (level.followedLevel ctx objectPath entries).placed (keys (level.added ctx objectPath entries)) := by
  have hgrown : (level.newEntries entries).foldl (Item.addField ctx objectPath) (level.survivors entries) =
      level.survivors entries ++ level.added ctx objectPath entries := Item.foldl_addField ..
  have hupdated : level.sampledKeys.foldl (Item.updateField Item.reconcile ctx objectPath entries)
      (level.survivors entries ++ level.added ctx objectPath entries) =
      level.followedLevel ctx objectPath entries := by
    rw [Item.foldl_updateField h.sampled (wellKeyed_grown h hentries ctx objectPath), followedLevel_eq_map]
  have hnew : (keys (level.survivors entries ++ level.added ctx objectPath entries)).drop
      (level.survivors entries).length = keys (level.added ctx objectPath entries) := by
    rw [OrderedMap.keys_append]
    exact List.drop_left' (List.length_map _)
  rw [Item.reconcileLevel, Item.reconcileLevelWith]
  simp only [dropVanished_eq h]
  show Schema.placed (List.foldl _ (List.foldl _ _ (level.newEntries entries)) level.sampledKeys)
    (List.drop _ (keys (List.foldl _ _ (level.newEntries entries)))) = _
  rw [hgrown, hupdated, hnew]

theorem wellKeyed_reconcileLevel {level : Schema} (h : level.WellKeyed) {entries : OrderedMap Json}
    (hentries : Distinct entries) (ctx : Context) (objectPath : String) :
    (Item.reconcileLevel ctx objectPath level entries).WellKeyed := by
  rw [reconcileLevel_eq h hentries]
  exact (wellKeyed_followedLevel h hentries ctx objectPath).placed _

theorem contiguous_reconcileLevel {level : Schema} (h : level.WellKeyed) {entries : OrderedMap Json}
    (hentries : Distinct entries) (ctx : Context) (objectPath : String) :
    (Item.reconcileLevel ctx objectPath level entries).Contiguous := by
  rw [reconcileLevel_eq h hentries]
  apply contiguous_placed
  · exact (wellKeyed_followedLevel h hentries ctx objectPath).distinct
  · exact places_added h ctx objectPath entries

/-- An item of a reconciled level is a custom one of the level before, or it is reconciled with the
value of its key: with the item that stood for the key, if there was one. -/
private theorem mem_followedLevel {ctx : Context} {objectPath : String} {level : Schema}
    {entries : OrderedMap Json} (hentries : Distinct entries) {entry : String × Item}
    (h : entry ∈ level.followedLevel ctx objectPath entries) :
    (entry ∈ level ∧ entry.2.isCustomField = true) ∨
    ∃ key value previous, OrderedMap.get? entries key = some value ∧
      (∀ old, previous = some old → (entry.1, old) ∈ level ∧ old.standsFor key = true) ∧
      (previous = none → key ∉ level.sampledKeys ∧ ∃ taken, entry.1 = Identifier.ofKey key taken) ∧
      entry.2 = Item.reconcile ctx (.field key entry.1 objectPath) previous (some value) := by
  rcases List.mem_append.mp h with h | h
  · obtain ⟨old, hold, rfl⟩ := List.mem_map.mp h
    obtain ⟨hlevel, hkept⟩ := mem_survivors.mp hold
    cases hcustom : old.2.isCustomField with
    | true =>
      rw [Item.followed_of_custom hcustom]
      exact .inl ⟨hlevel, hcustom⟩
    | false =>
      obtain ⟨value, hvalue⟩ := OrderedMap.mem_keys.mp (hkept.resolve_left (by simp [hcustom]))
      have hget := hentries.get?_eq_some_iff.mpr hvalue
      rw [Item.followed_of_value hcustom hget]
      refine .inr ⟨old.2.sampleKey, value, some old.2, hget, ?_, by simp, rfl⟩
      rintro _ ⟨⟩
      exact ⟨hlevel, Item.standsFor_iff.mpr ⟨hcustom, rfl⟩⟩
  · obtain ⟨key, value, hmem, hnew, hname, hitem⟩ := mem_added h
    refine .inr ⟨key, value, none, hentries.get?_eq_some_iff.mpr hmem, by simp, fun _ => ⟨hnew, hname⟩, ?_⟩
    rw [hitem, Item.reconcile_none]

/-- The same of the level once it is numbered. -/
theorem mem_reconcileLevel {level : Schema} (h : level.WellKeyed) {entries : OrderedMap Json}
    (hentries : Distinct entries) {ctx : Context} {objectPath : String} {entry : String × Item}
    (hentry : entry ∈ Item.reconcileLevel ctx objectPath level entries) :
    (∃ old n, (entry.1, old) ∈ level ∧ old.isCustomField = true ∧ entry.2 = old.movedTo n) ∨
    ∃ value previous n, OrderedMap.get? entries entry.2.sampleKey = some value ∧
      (∀ old, previous = some old → (entry.1, old) ∈ level ∧ old.standsFor entry.2.sampleKey = true) ∧
      (previous = none → entry.2.sampleKey ∉ level.sampledKeys ∧
        ∃ taken, entry.1 = Identifier.ofKey entry.2.sampleKey taken) ∧
      entry.2 = (Item.reconcile ctx (.field entry.2.sampleKey entry.1 objectPath) previous (some value)).movedTo n := by
  rw [reconcileLevel_eq h hentries] at hentry
  obtain ⟨field, hmem, n, rfl⟩ := mem_placed hentry
  obtain ⟨hlevel, hcustom⟩ | ⟨key, value, previous, hvalue, hprevious, hnew, heq⟩ :=
    mem_followedLevel hentries hmem
  · exact .inl ⟨field.2, n, hlevel, hcustom, rfl⟩
  · have hkey : (field.2.movedTo n).sampleKey = key := by
      show field.2.sampleKey = key
      rw [heq]
      cases previous with
      | none =>
        rw [Item.reconcile_none]
        exact Item.build_sampleKey ..
      | some old =>
        rw [(Item.reconcile_sameField ..).sampleKey]
        exact (Item.standsFor_iff.mp (hprevious old rfl).2).2
    dsimp only
    rw [hkey]
    exact .inr ⟨value, previous, n, hvalue, hprevious, hnew, congrArg (Item.movedTo n) heq⟩

/-- A level that follows an object stands for the keys of the object. -/
theorem mem_sampledKeys_followedLevel {ctx : Context} {objectPath : String} {level : Schema}
    {entries : OrderedMap Json} {key : String} :
    key ∈ (level.followedLevel ctx objectPath entries).sampledKeys ↔ key ∈ keys entries := by
  have hkept : sampledKeys ((level.survivors entries).map (Item.followed ctx objectPath entries)) =
      (level.survivors entries).sampledKeys :=
    sampledKeys_map fun entry _ => (Item.followed_sameField ..).2.sameIdentity
  rw [followedLevel, sampledKeys_append, List.mem_append, sampledKeys_added, hkept]
  constructor
  · rintro (hkey | hkey)
    · obtain ⟨entry, hentry, hstands⟩ := mem_sampledKeys.mp hkey
      obtain ⟨hcustom, rfl⟩ := Item.standsFor_iff.mp hstands
      exact (mem_survivors.mp hentry).2.resolve_left (by simp [hcustom])
    · obtain ⟨value, hvalue⟩ := OrderedMap.mem_keys.mp hkey
      exact OrderedMap.mem_keys.mpr ⟨value, (mem_newEntries.mp hvalue).1⟩
  · intro hkey
    by_cases hknown : key ∈ level.sampledKeys
    · obtain ⟨entry, hentry, hstands⟩ := mem_sampledKeys.mp hknown
      have hsurvives := mem_survivors.mpr ⟨hentry, .inr ((Item.standsFor_iff.mp hstands).2 ▸ hkey)⟩
      exact .inl (mem_sampledKeys.mpr ⟨entry, hsurvives, hstands⟩)
    · obtain ⟨value, hvalue⟩ := OrderedMap.mem_keys.mp hkey
      exact .inr (OrderedMap.mem_keys.mpr ⟨value, mem_newEntries.mpr ⟨hvalue, hknown⟩⟩)

end Schema
end FormSchema
