import FormSchema.Proofs.SettledRun

/-!
The sample that a run has parsed last. The root item records it: choosing a kind, even that of the
root, leaves the record alone.
-/
namespace FormSchema

namespace Step

/-- The sample that a step parses, if it comes to that, given the one that was parsed last. -/
def parses (recorded : Option Json) : Step → Option Json
  | parse _ sample => sample.filter Json.isObject
  | compute _ fieldLimit (some value) _ =>
    if Schema.isEmptySample (some value) || recorded.any value.same || fieldLimit < countFields value then none
    else (some value).filter Json.isObject
  | compute _ _ none _ | retype .. => none

end Step

def lastParsed (steps : List Step) : Option Json :=
  steps.foldl (fun recorded step => step.parses recorded <|> recorded) none

private theorem lastParsed_concat (steps : List Step) (step : Step) :
    lastParsed (steps ++ [step]) = (step.parses (lastParsed steps) <|> lastParsed steps) := by
  rw [lastParsed, lastParsed, List.foldl_append]
  rfl

namespace Schema

def recorded? (schema : Schema) : Option Json := schema.root?.bind Item.sourceData

private theorem recorded?_parsed (widget : String) (entries : OrderedMap Json) (previous : Schema) :
    (parsed widget entries previous).recorded? = some (.object entries) := by
  rw [parsed, recorded?, root?_singleton]
  exact Item.reconcile_sourceData ..

private theorem recorded?_parse (widget : String) (sample : Option Json) (schema : Schema) :
    ((parse widget sample schema).toOption.getD schema).recorded? =
      (sample.filter Json.isObject <|> schema.recorded?) := by
  match sample with
  | some (.object entries) =>
    rw [parse_object]
    exact recorded?_parsed ..
  | none | some .null | some (.bool _) | some (.int _) | some (.double _) | some (.string _) | some (.array _) => rfl

private theorem recorded?_compute (widget : String) (fieldLimit : Nat) (sample : Option Json) (schema : Schema)
    (paths : List String) :
    (((compute widget fieldLimit sample schema paths).map Computed.schema).toOption.getD schema).recorded? =
      ((Step.compute widget fieldLimit sample paths).parses schema.recorded? <|> schema.recorded?) := by
  cases sample with
  | none => rfl
  | some value =>
    have hparse := recorded?_parse widget (some value) schema
    rw [compute, recordsSample, ← recorded?, Step.parses]
    cases hskip : isEmptySample (some value) || schema.recorded?.any value.same with
    | true => rfl
    | false =>
      by_cases hlimit : fieldLimit < countFields value
      · simp only [hlimit, decide_true, Bool.or_true, ↓reduceIte, Bool.false_eq_true]
        rfl
      · simp only [hlimit, decide_false, Bool.or_false, ↓reduceIte, Bool.false_eq_true, ← hparse]
        cases parse widget (some value) schema <;> rfl

private theorem recorded?_modify {schema : Schema} {identifier : String} {change : Item → Item}
    (h : ∀ item, OrderedMap.get? schema identifier = some item → (change item).sourceData = item.sourceData) :
    recorded? (OrderedMap.modify schema identifier change) = schema.recorded? := by
  rw [recorded?, recorded?, root?, root?, OrderedMap.get?_modify]
  split
  · rename_i heq
    rw [heq]
    cases hitem : OrderedMap.get? schema identifier with
    | none => rfl
    | some item => exact h item hitem
  · rfl

private theorem recorded?_replace {schema : Schema} {identifiers : List String} {item replacement : Item}
    (hitem : schema.find? identifiers = some item) (hrecord : replacement.sourceData = item.sourceData) :
    (schema.replace replacement identifiers).recorded? = schema.recorded? := by
  match identifiers with
  | [] => rfl
  | [identifier] =>
    refine recorded?_modify fun old hold => ?_
    obtain rfl := Option.some.inj (hitem.symm.trans hold)
    exact hrecord
  | identifier :: next :: rest => exact recorded?_modify fun _ _ => rfl

private theorem Sound.recorded?_retype {schema : Schema} (h : schema.Sound none) (widget : String) (kind : FieldType)
    (path : String) : ((schema.retype widget kind path).toOption.getD schema).recorded? = schema.recorded? := by
  cases hnext : schema.retype widget kind path with
  | error error => rfl
  | ok next =>
    obtain ⟨identifiers, item, source, -, hitem, -, rfl⟩ := retype_eq_ok hnext
    exact recorded?_replace hitem (Item.retyped_sourceData (h.find? hitem).2 ..)

/-- A step that parses a sample records it, and no other step changes the record. -/
private theorem Sound.recorded?_apply {schema : Schema} (h : schema.Sound none) (step : Step) :
    (step.apply schema).recorded? = (step.parses schema.recorded? <|> schema.recorded?) := by
  cases step with
  | parse widget sample => exact recorded?_parse ..
  | compute widget fieldLimit sample paths => exact recorded?_compute ..
  | retype widget kind path => exact h.recorded?_retype ..

end Schema

/-- The root records the sample that was parsed last. -/
theorem run_recorded {steps : List Step} (h : ∀ step ∈ steps, WellFormedSample step.sample) :
    (run steps).recorded? = lastParsed steps := by
  induction steps using List.reverseRecOn with
  | nil => rfl
  | append_singleton steps step ih =>
    have hsteps : ∀ step ∈ steps, WellFormedSample step.sample :=
      fun step hstep => h step (List.mem_append_left _ hstep)
    rw [run_concat, (run_settled hsteps).sound.recorded?_apply, ih hsteps, lastParsed_concat]

end FormSchema
