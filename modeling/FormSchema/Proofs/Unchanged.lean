import FormSchema.Proofs.Reordered
import FormSchema.Proofs.SettledRun

/-!
The shortcut for a sample that is the recorded one up to the order of its keys. Parsing such a sample
leaves the schema as it is, so nothing is lost when the parse is left out.
-/
namespace FormSchema
open OrderedMap (keys values Distinct)

namespace Item

/-- The same item, but for the order of the keys in the samples that it and the items below it record. -/
inductive Alike : Item → Item → Prop
  | intro {a b : Item} (settings : (a.withChildren []).recording none = (b.withChildren []).recording none)
      (record : ReorderedSample a.sourceData b.sourceData) (names : keys a.children = keys b.children)
      (items : List.Forall₂ Alike (values a.children) (values b.children)) : Alike a b

end Item

/-- The same items under the same identifiers, but for the order of the keys in the recorded samples. -/
structure Schema.Alike (a b : Schema) : Prop where
  names : keys a = keys b
  items : List.Forall₂ Item.Alike (values a) (values b)

namespace Schema

/-- A change of the items alone that changes each of them at most in that way. -/
private theorem alike_map {level : Schema} {change : String × Item → String × Item}
    (hkey : ∀ entry ∈ level, (change entry).1 = entry.1) (hitem : ∀ entry ∈ level, (change entry).2.Alike entry.2) :
    Alike (level.map change) level := by
  refine ⟨OrderedMap.keys_map_of_fst level hkey, ?_⟩
  rw [values, values, List.map_map, List.forall₂_map_left_iff, List.forall₂_map_right_iff, List.forall₂_same]
  exact hitem

theorem Alike.refl {level : Schema} (h : ∀ entry ∈ level, entry.2.Alike entry.2) : level.Alike level := by
  have hmap := @alike_map level id (fun _ _ => rfl) h
  rwa [List.map_id] at hmap

end Schema

namespace Item

private theorem Alike.of_level {a b : Item}
    (hsettings : (a.withChildren []).recording none = (b.withChildren []).recording none)
    (hrecord : ReorderedSample a.sourceData b.sourceData) (h : Schema.Alike a.children b.children) : a.Alike b :=
  .intro hsettings hrecord h.names h.items

theorem Alike.movedTo {a b : Item} (h : a.Alike b) (n : Int) : (a.movedTo n).Alike (b.movedTo n) := by
  obtain ⟨hsettings, hrecord, hnames, hitems⟩ := h
  exact .intro (congrArg (Item.movedTo n) hsettings) hrecord hnames hitems

/-- An item is alike to itself, if the samples below it repeat no key. -/
theorem Alike.refl {item : Item} (h : item.Everywhere fun item => WellFormedSample item.sourceData) :
    item.Alike item := by
  induction h with
  | intro here inside ih => exact .of_level rfl (.refl here) (.refl ih)

/-- An item whose children stay alike stays alike. -/
private theorem Matches.alike_reconcile {item : Item} {sample : Option Json} (h : item.Matches sample)
    (hsample : ReorderedSample sample item.sourceData) {ctx : Context} {spec : ItemSpec}
    (hlevel : Schema.Alike (childrenFor ctx spec.sourcePath item.fieldType item.children sample) item.children) :
    (reconcile ctx spec (some item) sample).Alike item := by
  rw [reconcile_of_matches h]
  exact .of_level rfl hsample hlevel

private theorem Agrees.matches_reordered {item : Item} (h : item.Agrees item.sourceData) {sample : Option Json}
    (hsample : ReorderedSample sample item.sourceData) : item.Matches sample := by
  refine ⟨?_, hsample.elementTypeChanged_eq_false⟩
  rw [Agrees, isNullish, hsample.dataType_eq]
  exact h

/-- A settled item follows its recorded sample in another order of keys without a change. -/
theorem Settled.reconcile_reordered {item : Item} (h : item.Settled)
    (hrecords : item.Everywhere fun item => WellFormedSample item.sourceData) {sample : Option Json}
    (hsample : ReorderedSample sample item.sourceData) (ctx : Context) (spec : ItemSpec) :
    (reconcile ctx spec (some item) sample).Alike item := by
  induction h generalizing ctx spec sample with
  | @frozen item gone =>
    have hfrozen : item.Frozen sample := ⟨(congrArg DataType.isNullish hsample.dataType_eq).trans gone.1, gone.2⟩
    rw [reconcile_of_frozen hfrozen]
    exact .of_level rfl hsample (.refl fun entry hentry => .refl (hrecords.inside entry hentry))
  | @array item template agrees kind children place record inner ih =>
    refine (agrees.matches_reordered hsample).alike_reconcile hsample ?_
    have hbelow := hrecords.inside (Identifier.arrayItem, template) (by simp [children])
    have hinner := ih hbelow (record ▸ hsample.representative) ctx.enterArray (.template spec.sourcePath)
    have htemplate := hinner.movedTo 0
    rw [kind, childrenFor_array, children, OrderedMap.get?, if_pos rfl, templateLevel_eq]
    rw [← place, movedTo_position, place] at htemplate
    exact ⟨rfl, .cons htemplate .nil⟩
  | @object item entries agrees kind record level values fields ih =>
    refine (agrees.matches_reordered hsample).alike_reconcile hsample ?_
    -- The other object has the same keys, so no field of the level is new and none vanishes.
    rw [record] at hsample
    obtain ⟨other, rfl, hother⟩ := hsample.exists_object
    obtain ⟨hdistinct, hentries, hvalues⟩ := Json.reordered_object_iff.mp hother
    have hfollows := level.of_perm (Json.perm_keys_of_rel hdistinct hentries hvalues)
    rw [kind, childrenFor_object, hfollows.reconcileLevel]
    refine Schema.alike_map (fun entry _ => (followed_sameField ..).1) fun entry hentry => ?_
    cases hcustom : entry.2.isCustomField with
    | true =>
      rw [followed_of_custom hcustom]
      exact .refl (hrecords.inside entry hentry)
    | false =>
      obtain ⟨value, hvalue⟩ := hfollows.exists_value hentry hcustom
      have hfield := hvalues entry.2.sampleKey
      rw [hvalue, values entry hentry hcustom] at hfield
      rw [followed_of_value hcustom hvalue]
      exact ih entry hentry hcustom (hrecords.inside entry hentry) hfield ctx _
  | @leaf item agrees harray hobject =>
    have hother : item.fieldType = .object → ∀ entries, sample ≠ some (.object entries) := by
      rintro hkind other rfl
      obtain ⟨value, hrecord, hvalue⟩ := Json.exists_right_of_rel hsample
      obtain ⟨entries, rfl⟩ := Json.exists_entries_of_isObject hvalue.isObject_eq.symm
      exact hobject hkind entries hrecord
    refine (agrees.matches_reordered hsample).alike_reconcile hsample ?_
    rw [childrenFor_other harray hother]
    exact .refl fun entry hentry => .refl (hrecords.inside entry hentry)

end Item

private theorem Schema.exists_root_of_recordsSample {schema : Schema} {sample : Json}
    (h : schema.recordsSample sample = true) :
    ∃ root record, schema.root? = some root ∧ root.sourceData = some record ∧ sample.same record = true := by
  rw [recordsSample] at h
  cases hrecord : schema.root?.bind Item.sourceData with
  | none =>
    rw [hrecord] at h
    cases h
  | some record =>
    rw [hrecord] at h
    obtain ⟨root, hroot, hdata⟩ := Option.bind_eq_some_iff.mp hrecord
    exact ⟨root, record, hroot, hdata, h⟩

/-- The shortcut agrees with the parse that it leaves out: after every run, a sample that equals the
recorded one is parsed into the same schema, up to the order of keys in the samples it records. -/
theorem run_parse_recorded {steps : List Step} (h : ∀ step ∈ steps, WellFormedSample step.sample) {sample : Json}
    (hsample : sample.WellFormed) (hrecorded : (run steps).recordsSample sample = true) (widget : String) :
    ∃ schema, Schema.parse widget (some sample) (run steps) = .ok schema ∧ schema.Alike (run steps) ∧
      ∀ fieldLimit paths, Schema.compute widget fieldLimit (some sample) (run steps) paths =
        .ok ⟨.unchanged, run steps, paths⟩ := by
  have hrun := run_settled h
  obtain ⟨root, record, hroot, hrecord, hsame⟩ := Schema.exists_root_of_recordsSample hrecorded
  have hmem := OrderedMap.mem_of_get?_eq_some hroot
  obtain ⟨hsettled, hplace, entries, hobject⟩ := hrun.items _ hmem
  have hrecords := (hrun.sound.items _ hmem).imp fun _ hitem => hitem.record
  have hreordered : ReorderedSample (some sample) root.sourceData :=
    hrecord ▸ .some ⟨hsample, hrecords.here _ hrecord, hsame⟩
  obtain ⟨other, hother, -⟩ := (hobject ▸ hreordered).exists_object
  obtain rfl := Option.some.inj hother
  have halike := (hsettled.reconcile_reordered hrecords hreordered { widget } Schema.rootSpec).movedTo 0
  rw [← hplace, Item.movedTo_position, hplace] at halike
  refine ⟨_, Schema.parse_object .., ?_, fun fieldLimit paths => ?_⟩
  · rw [Schema.parsed, hroot, hrun.sound.eq_singleton hroot]
    exact ⟨rfl, .cons halike .nil⟩
  · rw [Schema.compute, hrecorded, Bool.or_true, if_pos rfl]

def chosenRun : List Step :=
  [.parse "Form" (some (.object
      [("rows", .array [.object [("x", .int 1), ("y", .null)], .object [("z", .bool true)]]), ("note", .null)])),
    .retype "Form" .array "schema.__root_schema__.children.note"]

def shuffledSample : Json := .object
  [("note", .null), ("rows", .array [.object [("y", .null), ("x", .int 1)], .object [("z", .bool true)]])]

theorem run_parse_recorded_shuffled : (∀ step ∈ chosenRun, WellFormedSample step.sample) ∧
    shuffledSample.WellFormed ∧ (run chosenRun).recordsSample shuffledSample = true ∧
    ∃ schema, Schema.parse "Other" (some shuffledSample) (run chosenRun) = .ok schema ∧
      schema.Alike (run chosenRun) ∧
      ∀ fieldLimit paths, Schema.compute "Other" fieldLimit (some shuffledSample) (run chosenRun) paths =
        .ok ⟨.unchanged, run chosenRun, paths⟩ := by
  have hsteps : ∀ step ∈ chosenRun, WellFormedSample step.sample := by
    simp [chosenRun, Step.sample, WellFormedSample, Json.WellFormed, Json.EntriesWellFormed,
      Json.ItemsWellFormed, Distinct, keys]
  have hsample : shuffledSample.WellFormed := by
    simp [shuffledSample, Json.WellFormed, Json.EntriesWellFormed, Json.ItemsWellFormed, Distinct, keys]
  have hrecorded : (run chosenRun).recordsSample shuffledSample = true := by decide +kernel
  exact ⟨hsteps, hsample, hrecorded, run_parse_recorded hsteps hsample hrecorded "Other"⟩

end FormSchema
