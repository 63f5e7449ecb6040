import FormSchema.Proofs.Position
import FormSchema.Reconcile
import Mathlib.Data.List.Nodup

namespace FormSchema
open OrderedMap (keys Distinct)

namespace Item

/-- The item and all items below it have a property. -/
inductive Everywhere (p : Item → Prop) : Item → Prop
  | intro {item : Item} (here : p item) (inside : ∀ entry ∈ item.children, Everywhere p entry.2) :
    Everywhere p item

theorem Everywhere.here {p : Item → Prop} {item : Item} (h : item.Everywhere p) : p item := by
  cases h with
  | intro here inside => exact here

theorem Everywhere.inside {p : Item → Prop} {item : Item} (h : item.Everywhere p) :
    ∀ entry ∈ item.children, entry.2.Everywhere p := by
  cases h with
  | intro here inside => exact inside

theorem Everywhere.imp {p q : Item → Prop} (himp : ∀ item, p item → q item) {item : Item}
    (h : item.Everywhere p) : item.Everywhere q := by
  induction h with
  | intro here inside ih => exact .intro (himp _ here) ih

theorem Everywhere.and {p q : Item → Prop} {item : Item} (hp : item.Everywhere p) (hq : item.Everywhere q) :
    item.Everywhere fun item => p item ∧ q item := by
  induction hp with
  | intro here inside ih => exact .intro ⟨here, hq.here⟩ fun entry hentry => ih entry hentry (hq.inside entry hentry)

theorem everywhere_iff {p : Item → Prop} {item : Item} :
    item.Everywhere p ↔ p item ∧ ∀ entry ∈ item.children, entry.2.Everywhere p :=
  ⟨fun h => ⟨h.here, h.inside⟩, fun h => .intro h.1 h.2⟩

private theorem forall_mem_entry_cons {p : Item → Prop} {key : String} {item : Item} {rest : List (String × Item)} :
    (∀ entry ∈ (key, item) :: rest, p entry.2) ↔ p item ∧ ∀ entry ∈ rest, p entry.2 := List.forall_mem_cons

private def decideFromChildren (p : Item → Prop) [DecidablePred p] (item : Item)
    (_ : Decidable (∀ entry ∈ item.children, entry.2.Everywhere p)) : Decidable (item.Everywhere p) :=
  decidable_of_iff _ everywhere_iff.symm

mutual
def decideEverywhere (p : Item → Prop) [DecidablePred p] : (item : Item) → Decidable (item.Everywhere p)
  | { children, .. } => decideFromChildren p _ (decideEverywhereIn p children)
termination_by structural item => item

def decideEverywhereIn (p : Item → Prop) [DecidablePred p] :
    (level : List (String × Item)) → Decidable (∀ entry ∈ level, entry.2.Everywhere p)
  | [] => isTrue (by simp)
  | (_, item) :: rest =>
    have := decideEverywhere p item
    have := decideEverywhereIn p rest
    decidable_of_iff _ forall_mem_entry_cons.symm
termination_by structural level => level
end

instance (p : Item → Prop) [DecidablePred p] : DecidablePred (Everywhere p) := decideEverywhere p

/-- Two states of one field: what identifies it and what the user has set is the same. -/
structure SameField (a b : Item) : Prop where
  identifier : a.identifier = b.identifier
  sampleKey : a.sampleKey = b.sampleKey
  accessor : a.accessor = b.accessor
  label : a.label = b.label
  position : a.position = b.position
  isCustomField : a.isCustomField = b.isCustomField
  isVisible : a.isVisible = b.isVisible
  isRequired : a.isRequired = b.isRequired
  isDisabled : a.isDisabled = b.isDisabled
  isFieldTypeOverridden : a.isFieldTypeOverridden = b.isFieldTypeOverridden

theorem SameField.refl (item : Item) : item.SameField item :=
  ⟨rfl, rfl, rfl, rfl, rfl, rfl, rfl, rfl, rfl, rfl⟩

/-- The same field, perhaps at another place and with other settings. -/
structure SameIdentity (a b : Item) : Prop where
  identifier : a.identifier = b.identifier
  sampleKey : a.sampleKey = b.sampleKey
  isCustomField : a.isCustomField = b.isCustomField

theorem SameField.sameIdentity {a b : Item} (h : a.SameField b) : a.SameIdentity b :=
  ⟨h.identifier, h.sampleKey, h.isCustomField⟩

private theorem movedTo_sameIdentity (p : Int) (item : Item) : (item.movedTo p).SameIdentity item :=
  ⟨rfl, rfl, rfl⟩

theorem build_isCustomField (ctx : Context) (spec : ItemSpec) (sample : Option Json) :
    (build ctx spec sample).isCustomField = spec.isCustomField := by
  rw [build]
  rfl

theorem build_identifier (ctx : Context) (spec : ItemSpec) (sample : Option Json) :
    (build ctx spec sample).identifier = spec.identifier := by
  rw [build]
  rfl

theorem build_sampleKey (ctx : Context) (spec : ItemSpec) (sample : Option Json) :
    (build ctx spec sample).sampleKey = spec.key := by
  rw [build]
  rfl

private theorem rebuild_sameField (ctx : Context) (spec : ItemSpec) (item : Item) (sample : Option Json) :
    (rebuild ctx spec item sample).SameField item :=
  ⟨rfl, rfl, rfl, rfl, rfl, build_isCustomField .., rfl, rfl, rfl, rfl⟩

/-- Reconciliation keeps the identity of an item, whatever the sample. -/
theorem reconcile_sameField (ctx : Context) (spec : ItemSpec) (item : Item) (sample : Option Json) :
    (reconcile ctx spec (some item) sample).SameField item := by
  rw [reconcile_eq]
  split
  · exact ⟨rfl, rfl, rfl, rfl, rfl, rfl, rfl, rfl, rfl, rfl⟩
  · exact rebuild_sameField ..
  · exact ⟨rfl, rfl, rfl, rfl, rfl, rfl, rfl, rfl, rfl, rfl⟩

def standsFor (key : String) (item : Item) : Bool := !item.isCustomField && item.sampleKey = key

theorem standsFor_iff {key : String} {item : Item} :
    item.standsFor key = true ↔ item.isCustomField = false ∧ item.sampleKey = key := by
  simp [standsFor]

end Item

namespace Schema

abbrev sampledKeys (level : Schema) : List String := level.keysOf .sampleKey .sampled

theorem sampledKeys_eq (level : Schema) : level.sampledKeys =
    (level.filter fun entry => !entry.2.isCustomField).map fun entry => entry.2.sampleKey := by
  rw [sampledKeys, keysOf, OrderedMap.values, List.filter_map, List.map_map]
  rfl

theorem mem_sampledKeys {level : Schema} {key : String} :
    key ∈ level.sampledKeys ↔ ∃ entry ∈ level, entry.2.standsFor key = true := by
  simp only [sampledKeys_eq, List.mem_map, List.mem_filter, Item.standsFor_iff]
  constructor
  · rintro ⟨entry, ⟨hentry, hcustom⟩, hkey⟩
    exact ⟨entry, hentry, by simpa using hcustom, hkey⟩
  · rintro ⟨entry, hentry, hcustom, hkey⟩
    exact ⟨entry, ⟨hentry, by simpa using hcustom⟩, hkey⟩

theorem sampledKeys_singleton {item : Item} (h : item.isCustomField = false) (key : String) :
    sampledKeys [(key, item)] = [item.sampleKey] := by
  simp [sampledKeys_eq, h]

theorem sampledKeys_append (a b : Schema) : sampledKeys (a ++ b) = a.sampledKeys ++ b.sampledKeys := by
  simp only [sampledKeys_eq, List.filter_append, List.map_append]

theorem sampledKeys_map {level : Schema} {change : String × Item → String × Item}
    (h : ∀ entry ∈ level, (change entry).2.SameIdentity entry.2) :
    sampledKeys (level.map change) = level.sampledKeys := by
  have hfilter : (level.map change).filter (fun entry => !entry.2.isCustomField) =
      (level.filter fun entry => !entry.2.isCustomField).map change := by
    rw [List.filter_map]
    refine congrArg _ (List.filter_congr fun entry hentry => ?_)
    rw [Function.comp_apply, (h entry hentry).isCustomField]
  rw [sampledKeys_eq, sampledKeys_eq, hfilter, List.map_map]
  exact List.map_congr_left fun entry hentry => (h entry (List.mem_filter.mp hentry).1).sampleKey

/-- Items are stored under their identifiers, and no two of them stand for one key. -/
structure WellKeyed (level : Schema) : Prop where
  distinct : Distinct level
  named : ∀ entry ∈ level, entry.2.identifier = entry.1
  sampled : level.sampledKeys.Nodup

instance (level : Schema) : Decidable level.WellKeyed :=
  decidable_of_iff
    (Distinct level ∧ (∀ entry ∈ level, entry.2.identifier = entry.1) ∧ level.sampledKeys.Nodup)
    ⟨fun ⟨distinct, named, sampled⟩ => ⟨distinct, named, sampled⟩, fun h => ⟨h.distinct, h.named, h.sampled⟩⟩

namespace WellKeyed
variable {level : Schema}

theorem nil : WellKeyed [] := ⟨List.nodup_nil, by simp, List.nodup_nil⟩

theorem singleton {key : String} {item : Item} (h : item.identifier = key) : WellKeyed [(key, item)] where
  distinct := List.nodup_singleton _
  named := by simpa using h
  sampled := by
    rw [sampledKeys_eq]
    exact ((List.filter_sublist).map _).nodup (List.nodup_singleton _)

theorem sublist {rest : Schema} (h : level.WellKeyed) (hsub : List.Sublist rest level) :
    rest.WellKeyed where
  distinct := h.distinct.sublist hsub
  named entry hentry := h.named entry (hsub.subset hentry)
  sampled := by
    have hkeys := h.sampled
    rw [sampledKeys_eq] at hkeys ⊢
    exact hkeys.sublist ((hsub.filter _).map _)

/-- A change of the values of a level keeps it well keyed. -/
theorem map (h : level.WellKeyed) {change : String × Item → String × Item}
    (hkey : ∀ entry ∈ level, (change entry).1 = entry.1)
    (hfield : ∀ entry ∈ level, (change entry).2.SameIdentity entry.2) : WellKeyed (level.map change) where
  distinct := by
    rw [Distinct, OrderedMap.keys_map_of_fst level hkey]
    exact h.distinct
  named entry hentry := by
    obtain ⟨old, hold, rfl⟩ := List.mem_map.mp hentry
    rw [hkey old hold, (hfield old hold).identifier, h.named old hold]
  sampled := by
    rw [sampledKeys_map hfield]
    exact h.sampled

/-- At most one item stands for a key. -/
theorem eq_of_standsFor (h : level.WellKeyed) {key : String} {a b : String × Item} (ha : a ∈ level)
    (hb : b ∈ level) (hakey : a.2.standsFor key = true) (hbkey : b.2.standsFor key = true) : a = b := by
  have hkeys := h.sampled
  rw [sampledKeys_eq] at hkeys
  obtain ⟨hacustom, rfl⟩ := Item.standsFor_iff.mp hakey
  obtain ⟨hbcustom, hsame⟩ := Item.standsFor_iff.mp hbkey
  exact List.inj_on_of_nodup_map hkeys (List.mem_filter.mpr ⟨ha, by simpa using hacustom⟩)
    (List.mem_filter.mpr ⟨hb, by simpa using hbcustom⟩) hsame.symm

theorem identifierFor?_eq_some (h : level.WellKeyed) {key : String} {entry : String × Item}
    (hentry : entry ∈ level) (hkey : entry.2.standsFor key = true) :
    level.identifierFor? key = some entry.1 := by
  have hfound : ((OrderedMap.values level).find? (Item.standsFor key)).isSome := by
    rw [List.find?_isSome]
    exact ⟨entry.2, List.mem_map_of_mem hentry, hkey⟩
  obtain ⟨item, hitem⟩ := Option.isSome_iff_exists.mp hfound
  obtain ⟨found, hmem, rfl⟩ := List.mem_map.mp (List.mem_of_find?_eq_some hitem)
  obtain rfl := h.eq_of_standsFor hmem hentry (List.find?_some hitem) hkey
  rw [identifierFor?]
  exact (congrArg (Option.map Item.identifier) hitem).trans (congrArg some (h.named found hmem))

end WellKeyed

theorem identifierFor?_eq_none {level : Schema} {key : String}
    (h : ∀ entry ∈ level, ¬ entry.2.standsFor key = true) : level.identifierFor? key = none := by
  have hnone : (OrderedMap.values level).find? (Item.standsFor key) = none := by
    rw [List.find?_eq_none]
    intro item hitem
    obtain ⟨entry, hentry, rfl⟩ := List.mem_map.mp hitem
    exact h entry hentry
  exact congrArg (Option.map Item.identifier) hnone

theorem mem_placed {level : Schema} {new : List String} {entry : String × Item}
    (h : entry ∈ level.placed new) : ∃ old ∈ level, ∃ p, entry = (old.1, old.2.movedTo p) := by
  obtain ⟨place, heq⟩ := placed_eq_map_movedTo level new
  rw [heq] at h
  obtain ⟨old, hold, rfl⟩ := List.mem_map.mp h
  exact ⟨old, hold, _, rfl⟩

theorem WellKeyed.placed {level : Schema} (h : level.WellKeyed) (new : List String) :
    (level.placed new).WellKeyed := by
  obtain ⟨place, heq⟩ := placed_eq_map_movedTo level new
  rw [heq]
  exact h.map (fun _ _ => rfl) fun _ _ => Item.movedTo_sameIdentity ..

@[simp] theorem sampledKeys_placed (level : Schema) (new : List String) :
    (level.placed new).sampledKeys = level.sampledKeys := by
  obtain ⟨place, heq⟩ := placed_eq_map_movedTo level new
  rw [heq]
  exact sampledKeys_map fun _ _ => Item.movedTo_sameIdentity ..

/-- At every level, items are stored under their identifiers and stand for different keys. -/
structure WellFormed (schema : Schema) : Prop where
  top : schema.WellKeyed
  below : ∀ entry ∈ schema, entry.2.Everywhere fun item => WellKeyed item.children

instance (schema : Schema) : Decidable schema.WellFormed :=
  decidable_of_iff
    (schema.WellKeyed ∧ ∀ entry ∈ schema, entry.2.Everywhere fun item => WellKeyed item.children)
    ⟨fun ⟨top, below⟩ => ⟨top, below⟩, fun h => ⟨h.top, h.below⟩⟩

theorem WellFormed.of_root? {schema : Schema} (h : schema.WellFormed) {root : Item} (hroot : schema.root? = some root) :
    root.Everywhere fun item => WellKeyed item.children := h.below _ (OrderedMap.mem_of_get?_eq_some hroot)

end Schema
end FormSchema
