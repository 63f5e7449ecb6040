import FormSchema.Compute
import FormSchema.Proofs.Parsed
import FormSchema.Proofs.Reordered

/-!
What a widget makes of a sample, told by three outcomes. The schema of an accepted sample records it, so
the same sample is not accepted a second time, and nothing changes any more.
-/
namespace FormSchema

def ComputeStatus.again : ComputeStatus → ComputeStatus
  | limitExceeded => limitExceeded
  | unchanged | updated => unchanged

namespace Schema
variable {widget : String} {fieldLimit : Nat} {sample : Option Json} {previous : Schema} {paths : List String}
  {computed : Computed}

def skips (schema : Schema) (sample : Option Json) : Bool :=
  isEmptySample sample || sample.any schema.recordsSample

theorem compute_of_skips (h : previous.skips sample = true) :
    compute widget fieldLimit sample previous paths = .ok ⟨.unchanged, previous, paths⟩ := by
  cases sample with
  | none => rfl
  | some value => exact if_pos h

theorem compute_of_limit {value : Json} (hnew : previous.skips (some value) = false)
    (hmany : fieldLimit < countFields value) :
    compute widget fieldLimit (some value) previous paths = .ok ⟨.limitExceeded, previous, paths⟩ := by
  rw [skips, Option.any_some] at hnew
  simp only [compute, hnew, hmany, Bool.false_eq_true, ↓reduceIte]

/-- Within the limit, a new sample is parsed. -/
theorem compute_of_few {value : Json} (hnew : previous.skips (some value) = false)
    (hfew : countFields value ≤ fieldLimit) : compute widget fieldLimit (some value) previous paths =
      (parse widget (some value) previous).map fun schema => ⟨.updated, schema, schema.dynamicPaths paths⟩ := by
  rw [skips, Option.any_some] at hnew
  simp only [compute, hnew, Nat.not_lt.mpr hfew, Bool.false_eq_true, ↓reduceIte]

theorem compute_of_object {entries : OrderedMap Json} (hnew : previous.skips (some (.object entries)) = false)
    (hfew : countFields (.object entries) ≤ fieldLimit) :
    compute widget fieldLimit (some (.object entries)) previous paths =
      .ok ⟨.updated, parsed widget entries previous, (parsed widget entries previous).dynamicPaths paths⟩ := by
  rw [compute_of_few hnew hfew, parse_object]
  rfl

/-- The outcomes for a sample: there is nothing to do, it has too many fields, or its schema is parsed. -/
theorem compute_cases (h : compute widget fieldLimit sample previous paths = .ok computed) :
    (previous.skips sample = true ∧ computed = ⟨.unchanged, previous, paths⟩) ∨
    (∃ value, sample = some value ∧ previous.skips sample = false ∧ fieldLimit < countFields value ∧
      computed = ⟨.limitExceeded, previous, paths⟩) ∨
    (∃ entries, sample = some (.object entries) ∧ previous.skips sample = false ∧
      countFields (.object entries) ≤ fieldLimit ∧
      computed = ⟨.updated, parsed widget entries previous, (parsed widget entries previous).dynamicPaths paths⟩) := by
  cases hskips : previous.skips sample with
  | true =>
    rw [compute_of_skips hskips] at h
    exact .inl ⟨rfl, (Except.ok.inj h).symm⟩
  | false =>
    cases sample with
    | none => cases hskips
    | some value =>
      by_cases hmany : fieldLimit < countFields value
      · rw [compute_of_limit hskips hmany] at h
        exact .inr (.inl ⟨value, rfl, rfl, hmany, (Except.ok.inj h).symm⟩)
      · have hfew := Nat.not_lt.mp hmany
        cases value with
        | object entries =>
          rw [compute_of_object hskips hfew] at h
          exact .inr (.inr ⟨entries, rfl, rfl, hfew, (Except.ok.inj h).symm⟩)
        | _ =>
          rw [compute_of_few hskips hfew] at h
          cases h

/-- Whatever the schema before, a parsed schema records its sample. -/
theorem skips_parsed {entries : OrderedMap Json} (hsample : (Json.object entries).WellFormed) (widget : String)
    (previous : Schema) : (parsed widget entries previous).skips (some (.object entries)) = true := by
  have hrecord : (parsed widget entries previous).root?.bind Item.sourceData = some (.object entries) := by
    rw [parsed, root?_singleton]
    exact Item.reconcile_sourceData ..
  rw [skips, Option.any_some, recordsSample, hrecord, Option.any_some, (Json.Reordered.refl hsample).same,
    Bool.or_true]

/-- Accepting a sample is all or nothing, and doing so again changes nothing, whatever the schema and the
paths before the first time. -/
theorem compute_again (hsample : WellFormedSample sample)
    (h : compute widget fieldLimit sample previous paths = .ok computed) :
    (computed.status ≠ .updated → computed.schema = previous ∧ computed.paths = paths) ∧
      compute widget fieldLimit sample computed.schema computed.paths =
        .ok ⟨computed.status.again, computed.schema, computed.paths⟩ := by
  obtain ⟨hskips, rfl⟩ | ⟨value, rfl, hnew, hmany, rfl⟩ | ⟨entries, rfl, -, -, rfl⟩ := compute_cases h
  · exact ⟨fun _ => ⟨rfl, rfl⟩, compute_of_skips hskips⟩
  · exact ⟨fun _ => ⟨rfl, rfl⟩, compute_of_limit hnew hmany⟩
  · refine ⟨fun hstatus => absurd rfl hstatus, compute_of_skips ?_⟩
    exact skips_parsed (wellFormedSample_some.mp hsample) widget previous

def disordered : Schema :=
  let ctx : Context := { widget := "Form" }
  let x := Item.fresh ctx (.field "x" "x" SourcePath.root) (some (.int 1)) []
  let root := Item.fresh ctx { rootSpec with identifier := "form", fieldType := some .select } (some (.int 5))
    [("x", x), ("y", x)]
  [(Identifier.root, { root with isFieldTypeOverridden := true })]

def disorderedSample : OrderedMap Json := [("x", .null), ("z", .object [("x", .bool true)])]

theorem compute_again_disordered : WellFormedSample (some (.object disorderedSample)) ∧
    ∃ computed, compute "Form" 3 (some (.object disorderedSample)) disordered ["schema.form.label"] = .ok computed ∧
      (computed.status ≠ .updated → computed.schema = disordered ∧ computed.paths = ["schema.form.label"]) ∧
      compute "Form" 3 (some (.object disorderedSample)) computed.schema computed.paths =
        .ok ⟨computed.status.again, computed.schema, computed.paths⟩ := by
  have hsample : WellFormedSample (some (.object disorderedSample)) := by
    simp [disorderedSample, WellFormedSample, Json.WellFormed, Json.EntriesWellFormed, OrderedMap.Distinct,
      OrderedMap.keys]
  have hcomputed : ∃ computed, compute "Form" 3 (some (.object disorderedSample)) disordered
      ["schema.form.label"] = .ok computed := ⟨_, compute_of_object (by decide +kernel) (by decide +kernel)⟩
  obtain ⟨computed, hcomputed⟩ := hcomputed
  exact ⟨hsample, computed, hcomputed, compute_again hsample hcomputed⟩

end Schema
end FormSchema
