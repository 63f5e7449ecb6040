import FormSchema.Proofs.Settled
import FormSchema.Reconcile

namespace FormSchema.Schema

def parsed (widget : String) (entries : OrderedMap Json) (previous : Schema) : Schema :=
  [(Identifier.root, (Item.reconcile { widget } rootSpec previous.root? (some (.object entries))).movedTo 0)]

theorem parse_object (widget : String) (entries : OrderedMap Json) (previous : Schema) :
    parse widget (some (.object entries)) previous = .ok (parsed widget entries previous) := by
  rw [parse, placed_singleton, parsed]

/-- What parsing does to a schema: nothing, or the sample is an object. -/
theorem parse_ok {widget : String} {sample : Option Json} {previous schema : Schema}
    (h : parse widget sample previous = .ok schema) :
    schema = previous ∨
      ∃ entries, sample = some (.object entries) ∧ schema = parsed widget entries previous := by
  match sample with
  | none => exact .inl (Except.ok.inj h).symm
  | some (.object entries) =>
    rw [parse_object] at h
    exact .inr ⟨entries, rfl, (Except.ok.inj h).symm⟩
  | some .null | some (.bool _) | some (.int _) | some (.double _) | some (.string _) | some (.array _) => cases h

theorem root?_singleton (item : Item) : root? [(Identifier.root, item)] = some item := by
  rw [root?, OrderedMap.get?, if_pos rfl]

theorem exists_settled_of_parse {previous : Schema} (hprevious : previous.WellFormed)
    {entries : OrderedMap Json} (hsample : (Json.object entries).WellFormed) (widget : String) :
    ∃ root : Item, parse widget (some (.object entries)) previous = .ok [(Identifier.root, root)] ∧
      root.Settled ∧ root.position = 0 ∧ root.sourceData = some (.object entries) := by
  refine ⟨_, parse_object .., ?_, rfl, ?_⟩
  · apply Item.Settled.movedTo
    exact Item.settled_reconcile (wellFormedSample_some.mpr hsample) (fun _ hroot => hprevious.of_root? hroot) ..
  · exact Item.reconcile_sourceData ..

open OrderedMap (keys Distinct)

/-- Parsing is idempotent: the second time, the schema stays as it is in all its parts, whatever the
name of the widget. -/
theorem parse_idempotent {previous : Schema} (hprevious : previous.WellFormed)
    {entries : OrderedMap Json} (hsample : (Json.object entries).WellFormed) (first second : String) :
    ∃ schema, parse first (some (.object entries)) previous = .ok schema ∧
      parse second (some (.object entries)) schema = .ok schema := by
  obtain ⟨root, hparse, hsettled, hplace, hsource⟩ := exists_settled_of_parse hprevious hsample first
  have hagain := hsettled.reconcile_eq { widget := second } rootSpec
  rw [hsource] at hagain
  refine ⟨_, hparse, ?_⟩
  rw [parse_object, parsed, root?_singleton, hagain, ← hplace, Item.movedTo_position]

def edited : Schema :=
  let ctx : Context := { widget := "Form" }
  let sample : Option Json := some (.array [.string "red"])
  let colours := Item.fresh ctx (.field "my colours" "my_colours" SourcePath.root) sample []
  let note := Item.fresh ctx
    { ItemSpec.field "note" "note" SourcePath.root with fieldType := some .select, isCustomField := true } none []
  [(Identifier.root, Item.fresh ctx rootSpec (some (.object []))
    [("my_colours", { colours with fieldType := .array, isFieldTypeOverridden := true }), ("note", note)])]

theorem edited_wellFormed : edited.WellFormed := by decide +kernel

def editedSample : OrderedMap Json :=
  [("my colours", .array [.object []]), ("home", .object [("city", .string "Rome")]), ("name", .null)]

theorem editedSample_wellFormed : (Json.object editedSample).WellFormed := by
  simp [editedSample, Json.WellFormed, Json.EntriesWellFormed, Json.ItemsWellFormed, Distinct, keys]

theorem parse_idempotent_edited : edited.WellFormed ∧ (Json.object editedSample).WellFormed ∧
    ∃ schema, parse "Form" (some (.object editedSample)) edited = .ok schema ∧
      parse "Other" (some (.object editedSample)) schema = .ok schema :=
  ⟨edited_wellFormed, editedSample_wellFormed,
    parse_idempotent edited_wellFormed editedSample_wellFormed "Form" "Other"⟩

end FormSchema.Schema
