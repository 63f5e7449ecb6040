import FormSchema.Proofs.Computed

/-!
Samples that cannot be the root of a form: those that state something and are no objects. They are
reported, except for an array in which more fields are counted than the limit allows. The limit is
looked at first, although there would be no fields for an array.
-/
namespace FormSchema

namespace Json

def isInvalidRoot : Json → Bool
  | .null | .object _ => false
  | _ => true

/-- Only a null or an object can be the same as one. -/
private theorem isInvalidRoot_of_same {value : Json} {entries : OrderedMap Json}
    (h : value.same (.object entries) = true) :
    value.isInvalidRoot = false := by
  cases value with
  | object _ => rfl
  | _ => cases h

end Json

/-- Fields are counted in containers alone. -/
private theorem exists_items_of_countFields_pos {value : Json} (hvalue : value.isInvalidRoot = true)
    (h : 0 < countFields value) : ∃ items, value = .array items := by
  cases value with
  | array items => exact ⟨items, rfl⟩
  | null | object _ => cases hvalue
  | _ => simp [countFields] at h

namespace Schema
variable {widget : String} {fieldLimit : Nat} {previous : Schema} {paths : List String} {value : Json}

/-- The root, if there is one, was made for an object. -/
def RecordsObject (schema : Schema) : Prop :=
  ∀ root, schema.root? = some root → ∃ entries, root.sourceData = some (.object entries)

private theorem RecordsObject.skips_eq_false (h : previous.RecordsObject) (hvalue : value.isInvalidRoot = true) :
    previous.skips (some value) = false := by
  have hempty : isEmptySample (some value) = false := by
    cases value with
    | null | object _ => cases hvalue
    | _ => rfl
  have hnew : previous.recordsSample value = false := by
    rw [recordsSample]
    cases hroot : previous.root? with
    | none => rfl
    | some root =>
      obtain ⟨entries, hentries⟩ := h root hroot
      rw [Option.bind_some, hentries, Option.any_some, Bool.eq_false_iff]
      intro hsame
      rw [Json.isInvalidRoot_of_same hsame] at hvalue
      cases hvalue
  rw [skips, hempty, Option.any_some, hnew]
  rfl

private theorem parse_of_isInvalidRoot (h : value.isInvalidRoot = true) :
    parse widget (some value) previous = .error (.rootNotObject (DataType.of (some value))) := by
  cases value with
  | null | object _ => cases h
  | _ => rfl

/-- Within the limit, such a root is reported with its type. -/
theorem compute_of_isInvalidRoot (hprevious : previous.RecordsObject) (h : value.isInvalidRoot = true)
    (hfew : countFields value ≤ fieldLimit) : compute widget fieldLimit (some value) previous paths =
      .error (.rootNotObject (DataType.of (some value))) := by
  rw [compute_of_few (hprevious.skips_eq_false h) hfew, parse_of_isInvalidRoot h]
  rfl

/-- Nothing else is ever reported, whatever the schema before. -/
private theorem isInvalidRoot_of_compute_error {sample : Option Json} {error : SchemaError}
    (h : compute widget fieldLimit sample previous paths = .error error) :
    ∃ value, sample = some value ∧ value.isInvalidRoot = true ∧ countFields value ≤ fieldLimit ∧
      error = .rootNotObject (DataType.of sample) := by
  have hnew : previous.skips sample = false := by
    rw [Bool.eq_false_iff]
    intro hskips
    rw [compute_of_skips hskips] at h
    cases h
  match sample with
  | none => cases hnew
  | some value =>
    have hfew : countFields value ≤ fieldLimit := by
      by_contra hmany
      rw [compute_of_limit hnew (Nat.not_le.mp hmany)] at h
      cases h
    rw [compute_of_few hnew hfew] at h
    cases hvalue : value.isInvalidRoot with
    | true =>
      rw [parse_of_isInvalidRoot hvalue] at h
      exact ⟨value, rfl, hvalue, hfew, (Except.error.inj h).symm⟩
    | false =>
      cases value with
      | null => cases hnew
      | object entries => rw [parse_object] at h; cases h
      | _ => cases hvalue

/-- With a schema made for an object, a sample fails exactly if it states something, is no object and keeps
the limit, and then with its type. One that does not keep the limit is an array, and it is refused like an
object with too many fields. -/
theorem compute_reports (hprevious : previous.RecordsObject) (widget : String) (fieldLimit : Nat)
    (paths : List String) (sample : Option Json) :
    (∀ error, compute widget fieldLimit sample previous paths = .error error ↔
      ∃ value, sample = some value ∧ value.isInvalidRoot = true ∧ countFields value ≤ fieldLimit ∧
        error = .rootNotObject (DataType.of sample)) ∧
    ∀ value, sample = some value → value.isInvalidRoot = true → fieldLimit < countFields value →
      (∃ items, value = .array items) ∧
        compute widget fieldLimit sample previous paths = .ok ⟨.limitExceeded, previous, paths⟩ := by
  refine ⟨fun error => ⟨isInvalidRoot_of_compute_error, ?_⟩, ?_⟩
  · rintro ⟨value, rfl, hvalue, hfew, rfl⟩
    exact compute_of_isInvalidRoot hprevious hvalue hfew
  · rintro value rfl hvalue hmany
    have hnew := hprevious.skips_eq_false hvalue
    exact ⟨exists_items_of_countFields_pos hvalue (Nat.zero_lt_of_lt hmany), compute_of_limit hnew hmany⟩

def rowsSample : Json := .array [.object [("a", .int 1)], .null, .object [("a", .null), ("b", .string "x")]]

def emptyForm : Schema := [(Identifier.root, Item.fresh { widget := "Form" } rootSpec (some (.object [])) [])]

theorem compute_reports_rows : emptyForm.RecordsObject ∧
    compute "Form" 2 (some rowsSample) emptyForm [] = .error (.rootNotObject .array) ∧
    compute "Form" 1 (some rowsSample) emptyForm [] = .ok ⟨.limitExceeded, emptyForm, []⟩ := by
  have hprevious : emptyForm.RecordsObject := by
    intro root hroot
    obtain rfl := Option.some.inj hroot
    exact ⟨[], rfl⟩
  refine ⟨hprevious, ?_, ?_⟩
  · exact ((compute_reports hprevious "Form" 2 [] (some rowsSample)).1 _).mpr
      ⟨rowsSample, rfl, rfl, by decide +kernel, rfl⟩
  · exact ((compute_reports hprevious "Form" 1 [] (some rowsSample)).2 _ rfl rfl (by decide +kernel)).2

/-- An array with two fields counted in it, and a limit of one: the array is not reported. -/
theorem not_compute_reports_rows :
    RecordsObject [] ∧ (Json.array [.object [("a", .int 1), ("b", .int 2)]]).isInvalidRoot = true ∧
    compute "Form" 1 (some (.array [.object [("a", .int 1), ("b", .int 2)]])) [] [] =
      .ok ⟨.limitExceeded, [], []⟩ := by
  refine ⟨fun root hroot => (by cases hroot), rfl, compute_of_limit rfl (by decide +kernel)⟩

end Schema
end FormSchema
