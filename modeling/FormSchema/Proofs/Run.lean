import FormSchema.Proofs.Computed
import FormSchema.Build
import Mathlib.Data.List.Induction

namespace FormSchema

/-- One edit. Each brings the name of the widget that makes it. -/
inductive Step where
  | parse (widget : String) (sample : Option Json)
  | compute (widget : String) (fieldLimit : Nat) (sample : Option Json) (paths : List String)
  | retype (widget : String) (kind : FieldType) (path : String)

namespace Step

def widget : Step → String
  | parse widget _ => widget
  | compute widget _ _ _ => widget
  | retype widget _ _ => widget

def sample : Step → Option Json
  | parse _ sample => sample
  | compute _ _ sample _ => sample
  | retype .. => none

def attempt (schema : Schema) : Step → Except SchemaError Schema
  | parse widget sample => Schema.parse widget sample schema
  | compute widget fieldLimit sample paths =>
    (Schema.compute widget fieldLimit sample schema paths).map Computed.schema
  | retype widget kind path => schema.retype widget kind path

/-- The schema after a step. A step that fails leaves it as it was. -/
def apply (schema : Schema) (step : Step) : Schema := (step.attempt schema).toOption.getD schema

end Step

def run (steps : List Step) : Schema := steps.foldl Step.apply []

theorem run_concat (steps : List Step) (step : Step) : run (steps ++ [step]) = step.apply (run steps) := by
  rw [run, run, List.foldl_append]
  rfl

namespace Schema

private theorem compute_ok {widget : String} {fieldLimit : Nat} {sample : Option Json} {previous : Schema}
    {paths : List String} {computed : Computed}
    (h : compute widget fieldLimit sample previous paths = .ok computed) :
    computed.schema = previous ∨
      ∃ entries, sample = some (.object entries) ∧ computed.schema = parsed widget entries previous := by
  obtain ⟨-, rfl⟩ | ⟨-, -, -, -, rfl⟩ | ⟨entries, hsample, -, -, rfl⟩ := compute_cases h
  · exact .inl rfl
  · exact .inl rfl
  · exact .inr ⟨entries, hsample, rfl⟩

/-- Choosing a kind replaces the item at the path by what it is under that kind. -/
theorem retype_eq_ok {widget : String} {kind : FieldType} {schema next : Schema} {path : String}
    (h : schema.retype widget kind path = .ok next) :
    ∃ identifiers item source, ItemPath.identifiers path = .ok identifiers ∧
      schema.find? identifiers = some item ∧ schema.sourcePathAt path = .ok source ∧
      next = schema.replace (item.retyped { widget, withinArray := ItemPath.isWithinArray path } source kind)
        identifiers := by
  unfold retype retypedAt itemAt at h
  cases hpath : ItemPath.identifiers path with
  | error error =>
    rw [hpath] at h
    cases h
  | ok identifiers =>
    rw [hpath] at h
    cases hfind : schema.find? identifiers with
    | none =>
      simp only [bind, Except.bind, hfind] at h
      cases h
    | some item =>
      cases hsource : schema.sourcePathAt path with
      | error error =>
        simp only [bind, Except.bind, hfind, hsource] at h
        cases h
      | ok source =>
        simp only [bind, Except.bind, hfind, hsource, pure, Except.pure, setItemAt, hpath] at h
        exact ⟨identifiers, item, source, rfl, hfind, rfl, (Except.ok.inj h).symm⟩

end Schema

/-- What a step does: nothing, or a sample is parsed, or an item gets a kind. -/
theorem Step.apply_cases (schema : Schema) (step : Step) :
    step.apply schema = schema ∨
    (∃ entries, step.sample = some (.object entries) ∧ step.apply schema = schema.parsed step.widget entries) ∨
    ∃ kind path, schema.retype step.widget kind path = .ok (step.apply schema) := by
  rw [apply]
  cases hnext : step.attempt schema with
  | error error => exact .inl rfl
  | ok next =>
    show next = schema ∨ (∃ entries, step.sample = some (.object entries) ∧
        next = schema.parsed step.widget entries) ∨ ∃ kind path, schema.retype step.widget kind path = .ok next
    cases step with
    | parse widget sample =>
      obtain heq | hparsed := Schema.parse_ok hnext
      · exact .inl heq
      · exact .inr (.inl hparsed)
    | compute widget fieldLimit sample paths =>
      rw [attempt] at hnext
      cases hcompute : Schema.compute widget fieldLimit sample schema paths with
      | error error =>
        rw [hcompute] at hnext
        cases hnext
      | ok computed =>
        rw [hcompute] at hnext
        obtain rfl := Except.ok.inj hnext
        obtain heq | hparsed := Schema.compute_ok hcompute
        · exact .inl heq
        · exact .inr (.inl hparsed)
    | retype widget kind path => exact .inr (.inr ⟨kind, path, hnext⟩)

/-- An invariant that all steps of a kind keep holds after every run of such steps. -/
theorem run_invariant {p : Schema → Prop} {good : Step → Prop} (nil : p [])
    (apply : ∀ schema step, p schema → good step → p (step.apply schema)) {steps : List Step}
    (h : ∀ step ∈ steps, good step) : p (run steps) := by
  induction steps using List.reverseRecOn with
  | nil => exact nil
  | append_singleton steps step ih =>
    rw [run_concat]
    exact apply _ step (ih fun step hstep => h step (List.mem_append_left _ hstep)) (h step (by simp))

/-- An invariant of the schema holds after every run if it holds of the empty schema and each kind of
edit keeps it. -/
theorem run_induction {p : Schema → Prop} (nil : p [])
    (parsed : ∀ schema widget entries, p schema → (Json.object entries).WellFormed →
      p (schema.parsed widget entries))
    (retyped : ∀ schema identifiers item ctx source kind, p schema → schema.find? identifiers = some item →
      p (schema.replace (item.retyped ctx source kind) identifiers))
    {steps : List Step} (h : ∀ step ∈ steps, WellFormedSample step.sample) : p (run steps) := by
  refine run_invariant nil (fun schema step hschema hsample => ?_) h
  obtain heq | ⟨entries, hobject, heq⟩ | ⟨kind, path, hnext⟩ := step.apply_cases schema
  · rw [heq]
    exact hschema
  · rw [heq]
    exact parsed _ _ _ hschema (hsample _ hobject)
  · obtain ⟨identifiers, item, source, -, hitem, -, heq⟩ := Schema.retype_eq_ok hnext
    rw [heq]
    exact retyped _ _ _ _ _ _ hschema hitem

end FormSchema
