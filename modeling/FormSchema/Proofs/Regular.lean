import FormSchema.Proofs.Preservation

/-!
Regular schemas: what holds at every level of a schema that no hand has added fields to. Reconciliation
makes regular levels of regular ones.
-/
namespace FormSchema
open OrderedMap (keys Distinct)

namespace Schema

/-- A level below an item of some kind, or the uppermost one, as far as this can be said of a level
that may lack its template. -/
structure Tidy (owner : Option FieldType) (level : Schema) : Prop where
  keyed : level.WellKeyed
  sampled : ∀ entry ∈ level, entry.2.isCustomField = false
  words : ∀ key ∈ keys level, Identifier.IsWord key
  reserved : ∀ key ∈ keys level, key ∈ Identifier.reserved →
    owner = none ∧ key = Identifier.root ∨ owner = some .array ∧ key = Identifier.arrayItem
  positions : level.length ≤ 2147483648 →
    (level.map fun entry => entry.2.position).Perm ((List.range level.length).map Int.ofNat)
  leaf : ∀ kind, owner = some kind → kind ≠ .array → kind ≠ .object → level = []

/-- A level with all that it must have: the template below an array, and nothing but the root item
uppermost. -/
structure Regular (owner : Option FieldType) (level : Schema) : Prop extends Tidy owner level where
  root : owner = none → level = [] ∨ keys level = [Identifier.root]
  template : owner = some .array → keys level = [Identifier.arrayItem]

theorem Tidy.nil (owner : Option FieldType) : Tidy owner [] where
  keyed := .nil
  sampled := by simp
  words := by simp
  reserved := by simp
  positions _ := .refl _
  leaf _ _ _ _ := rfl

/-- A level of one item, in the first place. -/
theorem Tidy.singleton {owner : Option FieldType} {key : String} {item : Item} (hname : item.identifier = key)
    (hcustom : item.isCustomField = false)
    (hreserved : owner = none ∧ key = Identifier.root ∨ owner = some .array ∧ key = Identifier.arrayItem)
    (hplace : item.position = 0) : Tidy owner [(key, item)] where
  keyed := .singleton hname
  sampled := by simpa using hcustom
  words key' hkey := by
    rw [keys, List.map_singleton, List.mem_singleton] at hkey
    apply Identifier.isWord_of_mem_reserved
    rcases hreserved with ⟨-, hname⟩ | ⟨-, hname⟩ <;> simp [hkey, hname, Identifier.reserved]
  reserved key hkey _ := by
    rw [keys, List.map_singleton, List.mem_singleton] at hkey
    exact hkey ▸ hreserved
  positions := contiguous_singleton hplace
  leaf kind hkind harray _ := by
    rcases hreserved with ⟨hnone, -⟩ | ⟨hsome, -⟩
    · rw [hnone] at hkind
      cases hkind
    · rw [hsome] at hkind
      exact absurd (Option.some.inj hkind).symm harray

namespace Tidy
variable {owner : Option FieldType} {level : Schema}

/-- Without custom items, every item of a reconciled level comes from the value of its key. -/
theorem exists_of_mem_reconcileLevel (h : level.Tidy owner) {entries : OrderedMap Json}
    (hentries : Distinct entries) {ctx : Context} {path : String} {entry : String × Item}
    (hentry : entry ∈ Item.reconcileLevel ctx path level entries) :
    ∃ value previous n, OrderedMap.get? entries entry.2.sampleKey = some value ∧
      (∀ old, previous = some old → (entry.1, old) ∈ level ∧ old.standsFor entry.2.sampleKey = true) ∧
      (previous = none → entry.2.sampleKey ∉ level.sampledKeys ∧
        ∃ taken, entry.1 = Identifier.ofKey entry.2.sampleKey taken) ∧
      entry.2 = (Item.reconcile ctx (.field entry.2.sampleKey entry.1 path) previous (some value)).movedTo n := by
  obtain ⟨old, n, hold, hcustom, -⟩ | hlive := mem_reconcileLevel h.keyed hentries hentry
  · rw [h.sampled _ hold] at hcustom
    cases hcustom
  · exact hlive

/-- The items of a level that was reconciled with an object. -/
theorem of_mem_reconcileLevel (h : level.Tidy (some .object)) {entries : OrderedMap Json}
    (hentries : Distinct entries) {ctx : Context} {path : String} {entry : String × Item}
    (hentry : entry ∈ Item.reconcileLevel ctx path level entries) : entry.2.isCustomField = false ∧
      Identifier.IsWord entry.1 ∧ entry.1 ∉ Identifier.reserved := by
  obtain ⟨value, previous, n, -, hprevious, hnew, heq⟩ := h.exists_of_mem_reconcileLevel hentries hentry
  cases previous with
  | none =>
    obtain ⟨-, taken, hname⟩ := hnew rfl
    rw [heq, hname, Item.reconcile_none]
    exact ⟨Item.build_isCustomField .., Identifier.isWord_ofKey .., Identifier.ofKey_notReserved _ taken⟩
  | some old =>
    have hold := (hprevious old rfl).1
    have hkey : entry.1 ∈ keys level := OrderedMap.mem_keys.mpr ⟨old, hold⟩
    refine ⟨?_, h.words _ hkey, fun hreserved => ?_⟩
    · rw [heq]
      exact (Item.reconcile_sameField ..).isCustomField.trans (h.sampled _ hold)
    · rcases h.reserved _ hkey hreserved with ⟨howner, -⟩ | ⟨howner, -⟩ <;> cases howner

/-- An item that takes the place of the one under its identifier, if there is one. -/
theorem reconcile_get? (h : level.Tidy owner) (ctx : Context) (spec : ItemSpec) (hspec : spec.isCustomField = false)
    (sample : Option Json) :
    (Item.reconcile ctx spec (OrderedMap.get? level spec.identifier) sample).identifier = spec.identifier ∧
      (Item.reconcile ctx spec (OrderedMap.get? level spec.identifier) sample).isCustomField = false := by
  cases hprevious : OrderedMap.get? level spec.identifier with
  | none =>
    rw [Item.reconcile_none]
    exact ⟨Item.build_identifier .., (Item.build_isCustomField ..).trans hspec⟩
  | some item =>
    have hmem := OrderedMap.mem_of_get?_eq_some hprevious
    have hsame := Item.reconcile_sameField ctx spec item sample
    exact ⟨hsame.identifier.trans (h.keyed.named _ hmem), hsame.isCustomField.trans (h.sampled _ hmem)⟩

theorem reconcileLevel (h : level.Tidy (some .object)) {entries : OrderedMap Json} (hentries : Distinct entries)
    (ctx : Context) (path : String) : (Item.reconcileLevel ctx path level entries).Tidy (some .object) where
  keyed := wellKeyed_reconcileLevel h.keyed hentries ctx path
  sampled entry hentry := (h.of_mem_reconcileLevel hentries hentry).1
  words key hkey := by
    obtain ⟨entry, hentry, rfl⟩ := List.mem_map.mp hkey
    exact (h.of_mem_reconcileLevel hentries hentry).2.1
  reserved key hkey hreserved := by
    obtain ⟨entry, hentry, rfl⟩ := List.mem_map.mp hkey
    exact absurd hreserved (h.of_mem_reconcileLevel hentries hentry).2.2
  positions := contiguous_reconcileLevel h.keyed hentries ctx path
  leaf _ hkind _ hobject := absurd (Option.some.inj hkind).symm hobject

end Tidy

/-- A change that leaves the identity and the place of all items alone. -/
theorem Regular.map {owner : Option FieldType} {level : Schema} (h : level.Regular owner)
    {change : String × Item → String × Item} (hkey : ∀ entry ∈ level, (change entry).1 = entry.1)
    (hfield : ∀ entry ∈ level, (change entry).2.SameIdentity entry.2)
    (hposition : ∀ entry ∈ level, (change entry).2.position = entry.2.position) :
    Regular owner (level.map change) := by
  have hkeys : keys (level.map change) = keys level := OrderedMap.keys_map_of_fst level hkey
  constructor
  case toTidy =>
    constructor
    case keyed => exact h.keyed.map hkey hfield
    case sampled =>
      intro entry hentry
      obtain ⟨old, hold, rfl⟩ := List.mem_map.mp hentry
      rw [(hfield old hold).isCustomField]
      exact h.sampled old hold
    case words =>
      rw [hkeys]
      exact h.words
    case reserved =>
      rw [hkeys]
      exact h.reserved
    case positions =>
      intro hlength
      rw [List.length_map] at hlength ⊢
      have hpositions : (level.map change).map (fun entry => entry.2.position) =
          level.map fun entry => entry.2.position := by
        rw [List.map_map]
        exact List.map_congr_left hposition
      rw [hpositions]
      exact h.positions hlength
    case leaf =>
      intro kind howner harray hobject
      rw [h.leaf kind howner harray hobject]
      rfl
  case root =>
    rw [hkeys, List.map_eq_nil_iff]
    exact h.root
  case template =>
    rw [hkeys]
    exact h.template

/-- The children of an item after reconciliation. -/
private theorem regular_childrenFor {kind : FieldType} {old : Schema} (hold : old.Tidy (some kind))
    {sample : Option Json} (hsample : WellFormedSample sample) (ctx : Context) (path : String) :
    (Item.childrenFor ctx path kind old sample).Regular (some kind) := by
  rcases Item.childrenFor_cases ctx path kind old sample with
    ⟨rfl, heq⟩ | ⟨entries, rfl, rfl, heq⟩ | ⟨harray, -, heq⟩
  · have htemplate := hold.reconcile_get? ctx.enterArray (.template path) rfl (representative sample)
    rw [heq]
    exact ⟨.singleton htemplate.1 htemplate.2 (.inr ⟨rfl, rfl⟩) rfl, by simp, fun _ => rfl⟩
  · rw [heq]
    exact ⟨hold.reconcileLevel hsample.distinct ctx path, by simp, by simp⟩
  · rw [heq]
    exact ⟨hold, by simp, fun howner => absurd (Option.some.inj howner) harray⟩

end Schema

namespace Item

structure Sound (item : Item) : Prop where
  level : Schema.Regular (some item.fieldType) item.children
  record : WellFormedSample item.sourceData

theorem preserved_sound : Preserved Sound WellFormedSample (fun _ _ => True) fun _ _ => True where
  samples := hereditary_wellFormed
  keyed h := h.level.keyed
  moved _ h := ⟨h.level, h.record⟩
  kept hsample h _ _ := ⟨h.level, hsample⟩
  refreshed ctx path hsample h _ _ := ⟨Schema.regular_childrenFor h.level.toTidy hsample ctx path, hsample⟩
  rebuilt := by
    intro item sample ctx spec previous hsample _ _ hbuilt
    refine ⟨?_, ?_⟩
    · rw [hbuilt.children]
      exact Schema.regular_childrenFor (.nil _) hsample ctx spec.sourcePath
    · rw [hbuilt.sourceData]
      exact hsample
  field _ _ _ _ := trivial
  template _ _ := trivial
  toField _ _ := trivial
  toTemplate _ _ _ _ _ _ := trivial

end Item
end FormSchema
