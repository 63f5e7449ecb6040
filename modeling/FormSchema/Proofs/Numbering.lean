import FormSchema.Path
import FormSchema.Proofs.Level.Kept
import FormSchema.Proofs.Parsed
import FormSchema.Proofs.Preservation

/-!
Which levels a parse numbers: all that it reads. A level that it does not read is taken over with the
positions it had, even if some of its items have none yet.
-/
namespace FormSchema
open OrderedMap (keys Distinct)

namespace Schema

/-- The level below the item that identifiers lead to, or the level itself if there are none. -/
def levelAt? (level : Schema) : List String → Option Schema
  | [] => some level
  | identifier :: rest => (OrderedMap.get? level identifier).bind fun item => levelAt? item.children rest

private theorem levelAt?_cons {level : Schema} {identifier : String} {item : Item}
    (h : OrderedMap.get? level identifier = some item) (rest : List String) :
    level.levelAt? (identifier :: rest) = levelAt? item.children rest := by
  rw [levelAt?, h]
  rfl

private theorem exists_of_levelAt?_cons {level inner : Schema} {identifier : String} {rest : List String}
    (h : level.levelAt? (identifier :: rest) = some inner) :
    ∃ item, OrderedMap.get? level identifier = some item ∧ levelAt? item.children rest = some inner :=
  Option.bind_eq_some_iff.mp h

private theorem eq_nil_of_levelAt?_nil {path : List String} {inner : Schema} (h : levelAt? [] path = some inner) :
    inner = [] := by
  cases path with
  | nil => exact (Option.some.inj h).symm
  | cons identifier rest => cases h

structure Numbered (level : Schema) : Prop where
  top : level.Contiguous
  below : ∀ entry ∈ level, entry.2.Everywhere fun item => Contiguous item.children

end Schema

namespace Item

private theorem everywhere_contiguous_iff {item : Item}
    (h : item.Everywhere fun item => Schema.WellKeyed item.children) :
    (item.Everywhere fun item => Schema.Contiguous item.children) ↔
      ∀ path level, Schema.levelAt? item.children path = some level → level.Contiguous := by
  constructor
  · intro hitem path level hlevel
    clear h
    induction path generalizing item with
    | nil => exact Option.some.inj hlevel ▸ hitem.here
    | cons identifier rest ih =>
      obtain ⟨child, hchild, hbelow⟩ := Schema.exists_of_levelAt?_cons hlevel
      exact ih (hitem.inside _ (OrderedMap.mem_of_get?_eq_some hchild)) hbelow
  · intro hlevels
    induction h with
    | @intro item here inside ih =>
      refine .intro (hlevels [] _ rfl) fun entry hentry => ih entry hentry fun path level hlevel => ?_
      apply hlevels (entry.1 :: path)
      rw [Schema.levelAt?_cons (here.distinct.get?_of_mem hentry)]
      exact hlevel

/-- The levels below an item that reconciliation with a sample does not read: those of a frozen item,
those of an item whose children follow no sample, and those below a custom field. -/
inductive Unread : Item → Option Json → List String → Schema → Prop
  | frozen {item : Item} {sample : Option Json} {path : List String} {level : Schema} (frozen : item.Frozen sample)
      (below : Schema.levelAt? item.children path = some level) : Unread item sample path level
  | other {item : Item} {sample : Option Json} {path : List String} {level : Schema} (fits : item.Matches sample)
      (array : item.fieldType ≠ .array)
      (object : item.fieldType = .object → ∀ entries, sample ≠ some (.object entries))
      (below : Schema.levelAt? item.children path = some level) : Unread item sample path level
  | custom {item field : Item} {entries : OrderedMap Json} {identifier : String} {path : List String}
      {level : Schema} (fits : item.Matches (some (.object entries))) (object : item.fieldType = .object)
      (mem : OrderedMap.get? item.children identifier = some field) (custom : field.isCustomField = true)
      (below : Schema.levelAt? field.children path = some level) :
      Unread item (some (.object entries)) (identifier :: path) level
  | field {item field : Item} {entries : OrderedMap Json} {identifier : String} {value : Json}
      {path : List String} {level : Schema} (fits : item.Matches (some (.object entries)))
      (object : item.fieldType = .object) (mem : OrderedMap.get? item.children identifier = some field)
      (sampled : field.isCustomField = false) (found : OrderedMap.get? entries field.sampleKey = some value)
      (rest : Unread field (some value) path level) : Unread item (some (.object entries)) (identifier :: path) level
  | template {item template : Item} {sample : Option Json} {path : List String} {level : Schema}
      (fits : item.Matches sample) (array : item.fieldType = .array)
      (mem : OrderedMap.get? item.children Identifier.arrayItem = some template)
      (rest : Unread template (representative sample) path level) :
      Unread item sample (Identifier.arrayItem :: path) level

namespace Unread
variable {item : Item} {sample : Option Json} {path : List String} {level : Schema}

/-- The level is one of those before. -/
private theorem levelAt?_eq (h : Unread item sample path level) : Schema.levelAt? item.children path = some level := by
  induction h with
  | frozen frozen below => exact below
  | other fits array object below => exact below
  | custom fits object mem custom below => exact (Schema.levelAt?_cons mem _).trans below
  | field fits object mem sampled found rest ih => exact (Schema.levelAt?_cons mem _).trans ih
  | template fits array mem rest ih => exact (Schema.levelAt?_cons mem _).trans ih

/-- The level is taken over as it is. -/
private theorem levelAt?_reconcile (h : Unread item sample path level)
    (hitem : item.Everywhere fun item => Schema.WellKeyed item.children) (hsample : WellFormedSample sample)
    (ctx : Context) (spec : ItemSpec) :
    Schema.levelAt? (reconcile ctx spec (some item) sample).children path = some level := by
  induction h generalizing ctx spec with
  | frozen frozen below =>
    rw [reconcile_of_frozen frozen]
    exact below
  | @other item sample path level fits array object below =>
    rw [fits.children_reconcile, childrenFor_other array object]
    exact below
  | @custom item field entries identifier path level fits object mem custom below =>
    obtain ⟨n, hget⟩ := fits.exists_get?_custom object hitem.here hsample.distinct mem custom ctx spec
    rw [Schema.levelAt?_cons hget]
    exact below
  | @field item field entries identifier value path level fits object mem sampled found rest ih =>
    obtain ⟨n, hget⟩ := fits.exists_get?_sampled object hitem.here hsample.distinct mem sampled found ctx spec
    rw [Schema.levelAt?_cons hget]
    exact ih (hitem.inside _ (OrderedMap.mem_of_get?_eq_some mem)) (hsample.value found) ctx _
  | @template item template sample path level fits array mem rest ih =>
    rw [Schema.levelAt?_cons (fits.get?_reconcile_array array mem ctx spec)]
    exact ih (hitem.inside _ (OrderedMap.mem_of_get?_eq_some mem)) hsample.representative _ _

end Unread

/-- Below an item that fits its sample, a level is contiguous or not read, if so it is further down. -/
private theorem Matches.contiguous_or_unread {item : Item} {sample : Option Json} (h : item.Matches sample)
    (hitem : item.Everywhere fun item => Schema.WellKeyed item.children) (hsample : WellFormedSample sample)
    {ctx : Context} {source : String} {path : List String} {level : Schema}
    (ih : ∀ identifier rest, path = identifier :: rest → ∀ ctx spec previous sample,
      (∀ old, previous = some old → old.Everywhere fun item => Schema.WellKeyed item.children) →
      WellFormedSample sample → Schema.levelAt? (reconcile ctx spec previous sample).children rest = some level →
      level.Contiguous ∨ ∃ old, previous = some old ∧ old.Unread sample rest level)
    (hlevel : Schema.levelAt? (childrenFor ctx source item.fieldType item.children sample) path = some level) :
    level.Contiguous ∨ item.Unread sample path level := by
  rcases childrenFor_cases ctx source item.fieldType item.children sample with
    ⟨harray, heq⟩ | ⟨entries, hobject, rfl, heq⟩ | ⟨harray, hobject, heq⟩
  · rw [heq] at hlevel
    cases path with
    | nil =>
      obtain rfl := Option.some.inj hlevel
      exact .inl (Schema.contiguous_singleton rfl)
    | cons identifier rest =>
      obtain ⟨child, hchild, hbelow⟩ := Schema.exists_of_levelAt?_cons hlevel
      obtain ⟨rfl, rfl⟩ := List.mem_singleton.mp (OrderedMap.mem_of_get?_eq_some hchild)
      have htemplate : ∀ template, OrderedMap.get? item.children Identifier.arrayItem = some template →
          template.Everywhere fun item => Schema.WellKeyed item.children :=
        fun template hget => hitem.inside _ (OrderedMap.mem_of_get?_eq_some hget)
      rcases ih _ rest rfl _ _ _ _ htemplate hsample.representative hbelow with hplaced | ⟨template, hget, hunread⟩
      · exact .inl hplaced
      · exact .inr (.template h harray hget hunread)
  · rw [heq] at hlevel
    cases path with
    | nil =>
      obtain rfl := Option.some.inj hlevel
      exact .inl (Schema.contiguous_reconcileLevel hitem.here hsample.distinct ctx source)
    | cons identifier rest =>
      obtain ⟨child, hchild, hbelow⟩ := Schema.exists_of_levelAt?_cons hlevel
      rcases Schema.mem_reconcileLevel hitem.here hsample.distinct (OrderedMap.mem_of_get?_eq_some hchild) with
        ⟨field, n, hfield, hcustom, hfound⟩ | ⟨value, previous, n, hvalue, hprevious, -, hfound⟩
      · rw [show child = field.movedTo n from hfound] at hbelow
        exact .inr (.custom h hobject (hitem.here.distinct.get?_of_mem hfield) hcustom hbelow)
      · rw [show child = _ from hfound] at hbelow
        have hold : ∀ old, previous = some old → old.Everywhere fun item => Schema.WellKeyed item.children :=
          fun old hold => hitem.inside _ (hprevious old hold).1
        rcases ih identifier rest rfl _ _ _ _ hold (hsample.value hvalue) hbelow with
          hplaced | ⟨field, rfl, hunread⟩
        · exact .inl hplaced
        · obtain ⟨hmem, hstands⟩ := hprevious field rfl
          obtain ⟨hsampled, hkey⟩ := standsFor_iff.mp hstands
          exact .inr (.field h hobject (hitem.here.distinct.get?_of_mem hmem) hsampled (hkey ▸ hvalue) hunread)
  · rw [heq] at hlevel
    exact .inr (.other h harray hobject hlevel)

/-- Every level below a reconciled item is contiguous, unless it was not read. -/
theorem contiguous_or_unread {path : List String} {ctx : Context} {spec : ItemSpec} {previous : Option Item}
    {sample : Option Json} {level : Schema}
    (hprevious : ∀ old, previous = some old → old.Everywhere fun item => Schema.WellKeyed item.children)
    (hsample : WellFormedSample sample)
    (hlevel : Schema.levelAt? (reconcile ctx spec previous sample).children path = some level) :
    level.Contiguous ∨ ∃ old, previous = some old ∧ old.Unread sample path level := by
  have ih : ∀ identifier rest, path = identifier :: rest → ∀ ctx spec previous sample,
      (∀ old, previous = some old → old.Everywhere fun item => Schema.WellKeyed item.children) →
      WellFormedSample sample → Schema.levelAt? (reconcile ctx spec previous sample).children rest = some level →
      level.Contiguous ∨ ∃ old, previous = some old ∧ old.Unread sample rest level :=
    fun _ _ _ _ _ _ _ hprevious hsample hlevel => contiguous_or_unread hprevious hsample hlevel
  obtain ⟨item, rfl, hfrozen, heq⟩ | ⟨item, rfl, hmatches, -⟩ | ⟨-, hbuilt⟩ :=
    reconcile_cases ctx spec previous sample
  · rw [heq] at hlevel
    exact .inr ⟨item, rfl, .frozen hfrozen hlevel⟩
  · rw [hmatches.children_reconcile] at hlevel
    refine (hmatches.contiguous_or_unread (hprevious item rfl) hsample ih hlevel).imp_right fun hunread => ?_
    exact ⟨item, rfl, hunread⟩
  · -- The same item before it got its children: it fits, and there is no level below it to take over.
    have hmatches : ((reconcile ctx spec previous sample).withChildren []).Matches sample := by
      refine ⟨.inl hbuilt.dataType.symm, ?_⟩
      show elementTypeChanged sample (reconcile ctx spec previous sample).sourceData = false
      rw [hbuilt.sourceData, elementTypeChanged_self]
    rw [hbuilt.children] at hlevel
    rcases hmatches.contiguous_or_unread (.intro .nil (by simp [withChildren])) hsample ih hlevel with
      hplaced | hunread
    · exact .inl hplaced
    · have hnil := Schema.eq_nil_of_levelAt?_nil hunread.levelAt?_eq
      exact .inl (hnil ▸ Schema.contiguous_nil)
termination_by path.length
decreasing_by simp [*]

/-- The level below an item is numbered, but for fields that were added by hand to an object item and wait
for a place. -/
structure Awaiting (item : Item) : Prop where
  others : Schema.Contiguous (item.children.filter fun entry => entry.2.position ≠ unplaced)
  waiting : ∀ entry ∈ item.children, entry.2.position = unplaced →
    entry.2.isCustomField = true ∧ item.fieldType = .object
  template : item.fieldType = .array → ∀ key ∈ keys item.children, key = Identifier.arrayItem

instance : DecidablePred Awaiting := fun item =>
  decidable_of_iff (Schema.Contiguous (item.children.filter fun entry => entry.2.position ≠ unplaced) ∧
      (∀ entry ∈ item.children, entry.2.position = unplaced →
        entry.2.isCustomField = true ∧ item.fieldType = .object) ∧
      (item.fieldType = .array → ∀ key ∈ keys item.children, key = Identifier.arrayItem))
    ⟨fun ⟨others, waiting, template⟩ => ⟨others, waiting, template⟩,
      fun h => ⟨h.others, h.waiting, h.template⟩⟩

end Item

namespace Schema

theorem WellFormed.parsed {previous : Schema} (h : previous.WellFormed) {entries : OrderedMap Json}
    (hsample : (Json.object entries).WellFormed) (widget : String) : (parsed widget entries previous).WellFormed := by
  have hroot : (Item.reconcile { widget } rootSpec previous.root? (some (.object entries))).Everywhere
      fun item => WellKeyed item.children :=
    Item.preserved_wellKeyed.everywhere_reconcile (wellFormedSample_some.mpr hsample)
      (fun item hitem => ⟨h.of_root? hitem, trivial⟩) trivial _
  refine ⟨.singleton ?_, fun entry hentry => ?_⟩
  · exact Item.reconcile_identifier fun item hitem => h.top.named _ (OrderedMap.mem_of_get?_eq_some hitem)
  · rw [List.mem_singleton.mp hentry]
    exact Item.preserved_wellKeyed.everywhere_movedTo hroot 0

private theorem WellFormed.numbered_iff {schema : Schema} (h : schema.WellFormed) :
    schema.Numbered ↔ ∀ path level, schema.levelAt? path = some level → level.Contiguous := by
  constructor
  · rintro ⟨htop, hbelow⟩ path level hlevel
    cases path with
    | nil => exact Option.some.inj hlevel ▸ htop
    | cons identifier rest =>
      obtain ⟨item, hitem, hlevel⟩ := exists_of_levelAt?_cons hlevel
      have hmem := OrderedMap.mem_of_get?_eq_some hitem
      exact (Item.everywhere_contiguous_iff (h.below _ hmem)).mp (hbelow _ hmem) rest level hlevel
  · intro hlevels
    refine ⟨hlevels [] _ rfl, fun entry hentry => ?_⟩
    refine (Item.everywhere_contiguous_iff (h.below _ hentry)).mpr fun path level hlevel => ?_
    apply hlevels (entry.1 :: path)
    rw [levelAt?_cons (h.top.distinct.get?_of_mem hentry)]
    exact hlevel

/-- The levels of a schema that the parse of an object does not read. -/
def Unread (entries : OrderedMap Json) (schema : Schema) (path : List String) (level : Schema) : Prop :=
  ∃ root rest, schema.root? = some root ∧ path = Identifier.root :: rest ∧
    root.Unread (some (.object entries)) rest level

/-- After a parse every level is contiguous except those that the parse does not read. These stay where
they are, with the positions they had, so all levels are contiguous if and only if these were. -/
theorem parse_numbered_iff {previous : Schema} (hprevious : previous.WellFormed) {entries : OrderedMap Json}
    (hsample : (Json.object entries).WellFormed) (widget : String) :
    ∃ schema, parse widget (some (.object entries)) previous = .ok schema ∧
      (∀ path level, schema.levelAt? path = some level →
        level.Contiguous ∨ previous.Unread entries path level) ∧
      (∀ path level, previous.Unread entries path level →
        previous.levelAt? path = some level ∧ schema.levelAt? path = some level) ∧
      (schema.Numbered ↔ ∀ path level, previous.Unread entries path level → level.Contiguous) := by
  have hwell := wellFormedSample_some.mpr hsample
  have hread : ∀ path level, (parsed widget entries previous).levelAt? path = some level →
      level.Contiguous ∨ previous.Unread entries path level := by
    intro path level hlevel
    cases path with
    | nil =>
      obtain rfl := Option.some.inj hlevel
      exact .inl (contiguous_singleton rfl)
    | cons identifier rest =>
      obtain ⟨item, hitem, hbelow⟩ := exists_of_levelAt?_cons hlevel
      obtain ⟨rfl, rfl⟩ := List.mem_singleton.mp (OrderedMap.mem_of_get?_eq_some hitem)
      refine (Item.contiguous_or_unread (fun _ hold => hprevious.of_root? hold) hwell hbelow).imp_right ?_
      rintro ⟨old, hold, hunread⟩
      exact ⟨old, rest, hold, rfl, hunread⟩
  have htaken : ∀ path level, previous.Unread entries path level →
      previous.levelAt? path = some level ∧ (parsed widget entries previous).levelAt? path = some level := by
    rintro path level ⟨old, rest, hold, rfl, hunread⟩
    refine ⟨(levelAt?_cons hold rest).trans hunread.levelAt?_eq, ?_⟩
    rw [parsed, hold, levelAt?_cons (by rw [OrderedMap.get?, if_pos rfl])]
    exact hunread.levelAt?_reconcile (hprevious.of_root? hold) hwell { widget } rootSpec
  refine ⟨_, parse_object .., hread, htaken, ?_⟩
  rw [(hprevious.parsed hsample widget).numbered_iff]
  constructor
  · intro hlevels path level hunread
    exact hlevels path level (htaken path level hunread).2
  · intro hunread path level hlevel
    exact (hread path level hlevel).elim id (hunread path level)

/-- A form with notes that were added by hand and have no place yet: below an object, below a number
shown as an object, and below a group that was itself added by hand. -/
def extended : Schema :=
  let ctx : Context := { widget := "Form" }
  let x := Item.fresh ctx (.field "x" "x" "sourceData.a") (some (.int 1)) []
  let note := Item.fresh ctx
    { ItemSpec.field "note" "note" SourcePath.root with fieldType := some .textInput, isCustomField := true } none []
  let a := Item.fresh ctx (.field "a" "a" SourcePath.root) (some (.object [("x", .int 1)]))
    [("x", x.movedTo 0), ("note", note)]
  let n := Item.fresh ctx (.field "n" "n" SourcePath.root) (some (.int 5)) [("note", note)]
  let group := Item.fresh ctx
    { ItemSpec.field "group" "group" SourcePath.root with fieldType := some .object, isCustomField := true }
    (some (.object [])) [("note", note)]
  let root := Item.fresh ctx rootSpec (some (.object [("a", .object [("x", .int 1)]), ("n", .int 5)]))
    [("a", a.movedTo 0), ("n", { n.movedTo 1 with fieldType := .object, isFieldTypeOverridden := true }),
      ("group", group)]
  [(Identifier.root, root.movedTo 0)]

private theorem extended_wellFormed : extended.WellFormed := by decide +kernel

def extendedSample : OrderedMap Json := [("a", .object [("y", .null), ("x", .int 2)]), ("n", .int 6)]

theorem parse_numbered_iff_extended : extended.WellFormed ∧ (Json.object extendedSample).WellFormed ∧
    ∃ schema, parse "Form" (some (.object extendedSample)) extended = .ok schema ∧
      (∀ path level, schema.levelAt? path = some level →
        level.Contiguous ∨ extended.Unread extendedSample path level) ∧
      (∀ path level, extended.Unread extendedSample path level →
        extended.levelAt? path = some level ∧ schema.levelAt? path = some level) ∧
      (schema.Numbered ↔ ∀ path level, extended.Unread extendedSample path level → level.Contiguous) := by
  have hsample : (Json.object extendedSample).WellFormed := by
    simp [extendedSample, Json.WellFormed, Json.EntriesWellFormed, Distinct, keys]
  exact ⟨extended_wellFormed, hsample, parse_numbered_iff extended_wellFormed hsample "Form"⟩

/-- Below the object, once it is null, below the number and below the group the notes get no place. -/
theorem not_numbered_extended : extended.WellFormed ∧ (∀ entry ∈ extended, entry.2.Everywhere Item.Awaiting) ∧
    (Json.object [("a", .null), ("n", .int 6)]).WellFormed ∧
    ∃ schema, parse "Form" (some (.object [("a", .null), ("n", .int 6)])) extended = .ok schema ∧
      (∀ key ∈ ["a", "n", "group"],
        (schema.find? [Identifier.root, key, "note"]).map (fun note => (note.isCustomField, note.position)) =
          some (true, unplaced)) ∧
      ¬ schema.Numbered := by
  have hsample : (Json.object [("a", .null), ("n", .int 6)]).WellFormed := by
    simp [Json.WellFormed, Json.EntriesWellFormed, Distinct, keys]
  refine ⟨extended_wellFormed, by decide +kernel, hsample, _, parse_object .., by decide +kernel, ?_⟩
  intro hnumbered
  have hunplaced : ∃ level ∈ (parsed "Form" [("a", .null), ("n", .int 6)] extended).levelAt? [Identifier.root, "a"],
      level.length = 2 ∧ ∃ entry ∈ level, entry.2.position = unplaced := by
    decide +kernel
  obtain ⟨level, hat, hlength, entry, hentry, hplace⟩ := hunplaced
  have hplaced := (extended_wellFormed.parsed hsample "Form").numbered_iff.mp hnumbered _ _ hat
  exact hplaced.position_ne (by omega) hentry hplace

end Schema
end FormSchema
