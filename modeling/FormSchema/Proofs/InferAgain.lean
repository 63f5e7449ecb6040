import FormSchema.Proofs.Computed
import FormSchema.Proofs.Execution
import FormSchema.Proofs.ReadBack
import FormSchema.Proofs.Storable

/-!
An inference whose schema is kept in a file, and the next one from that file. The schema comes back from the
file as it was, it records the sample, and so the second document is the first one again.
-/
namespace FormSchema
open Schema (Holds)

namespace DocumentReader
variable {yaml : YamlPackage} {format : DocumentFormat} {text : String}

/-- No key of a sample is given twice, in whatever format it was. -/
private theorem wellFormed_of_sample {value : Json} (h : sample.read? yaml format text = some value) :
    value.WellFormed := by
  obtain ⟨read, -, hvalue⟩ := Option.bind_eq_some_iff.mp h
  cases hvalue
  exact Json.collapse_wellFormed read

/-- A schema that was read can be stored, in whatever format it was. -/
private theorem storable_of_schema {value : Schema} (h : schema.read? yaml format text = some value) :
    value.Holds Item.Storable := by
  obtain ⟨json, -, hjson⟩ := Option.bind_eq_some_iff.mp h
  obtain ⟨hrepresentable, hplain⟩ := Schema.representable_of_ofJson? hjson
  exact hrepresentable.holds hplain

end DocumentReader

namespace Surroundings
variable {α : Type} {found rest : Surroundings} {reader : DocumentReader α} {path : String} {value : α}

private theorem exists_text_of_read (h : found.read reader path = .ok (value, rest)) :
    ∃ text, reader.read? found.yaml (.ofPath path) text = some value := by
  obtain ⟨-, hvalue, -⟩ | ⟨text, -, hvalue, -⟩ := read_eq_ok_iff.mp h
  · exact ⟨_, hvalue⟩
  · exact ⟨text, hvalue⟩

/-- What is read depends on what the path leads to and on the standard input. -/
private theorem read_of_same_source (h : found.read reader path = .ok (value, rest)) {other : Surroundings}
    (hsource : other.source path = found.source path) (hinput : other.input = found.input)
    (hyaml : other.yaml = found.yaml) :
    other.read reader path = .ok (value, { other with input := rest.input }) := by
  have hopened : other.opened path = found.opened path := by rw [opened, opened, hsource]
  rw [read_eq_ok_iff, hopened, hyaml]
  obtain ⟨hfrom, hvalue, rfl⟩ | ⟨text, hfrom, hvalue, rfl⟩ := read_eq_ok_iff.mp h
  · exact .inl ⟨hfrom, hinput ▸ hvalue, by rw [← hyaml]⟩
  · exact .inr ⟨text, hfrom, hvalue, by rw [← hinput, ← hyaml]⟩

private theorem read_of_text {text : String} (hdash : FilePath.isDash path = false)
    (hsource : found.source path = .text text)
    (hvalue : reader.read? found.yaml (.ofPath path) text = some value) :
    found.read reader path = .ok (value, found) := by
  refine read_eq_ok_iff.mpr (.inr ⟨text, ?_, hvalue, rfl⟩)
  rw [opened, hdash, if_neg Bool.false_ne_true, hsource]

private theorem storable_of_readPrevious {path : Option String} {schema : Schema}
    (h : found.readPrevious path = .ok (schema, rest)) : schema.Holds Item.Storable := by
  cases path with
  | none =>
    cases h
    exact .nil
  | some path =>
    obtain ⟨text, htext⟩ := exists_text_of_read h
    exact DocumentReader.storable_of_schema htext

end Surroundings

/-- The text of a document is read as its value. -/
def Document.ReadsBack (yaml : YamlPackage) (document : Document) : Prop :=
  document.format.read? yaml .schema document.text = some document.value

namespace Command.Infers
variable {found left : Surroundings} {input widget : String} {schema : Option String} {fieldLimit : Nat}
  {sample : Json} {previous : Schema} {computed : Computed}

theorem sample_wellFormed (h : Infers found input schema widget fieldLimit sample previous left computed) :
    sample.WellFormed := by
  obtain ⟨rest, hsample, -⟩ := h.reads
  obtain ⟨text, htext⟩ := Surroundings.exists_text_of_read hsample
  exact DocumentReader.wellFormed_of_sample htext

/-- The schema that an inference computes can be stored, whatever was in the document before. -/
theorem storable (h : Infers found input schema widget fieldLimit sample previous left computed) :
    computed.schema.Holds Item.Storable := by
  obtain ⟨rest, -, hprevious⟩ := h.reads
  have hstorable := Surroundings.storable_of_readPrevious hprevious
  obtain ⟨-, rfl⟩ | ⟨_, -, -, -, rfl⟩ | ⟨entries, heq, -, -, rfl⟩ := Schema.compute_cases h.computes
  · exact hstorable
  · exact hstorable
  · have hsample := h.sample_wellFormed
    rw [Option.some.inj heq] at hsample
    exact Schema.holds_parsed hstorable hsample widget

/-- There is nothing to do any more for a sample that was not too large. -/
theorem skips (h : Infers found input schema widget fieldLimit sample previous left computed)
    (hstatus : computed.status ≠ .limitExceeded) : computed.schema.skips (some sample) = true := by
  obtain ⟨hskips, rfl⟩ | ⟨_, -, -, -, rfl⟩ | ⟨entries, heq, -, -, rfl⟩ := Schema.compute_cases h.computes
  · exact hskips
  · exact absurd rfl hstatus
  · have hsample := h.sample_wellFormed
    rw [Option.some.inj heq] at hsample
    rw [heq]
    exact Schema.skips_parsed hsample widget previous

/-- An inference from the document of another one computes nothing new. -/
theorem again (h : Infers found input schema widget fieldLimit sample previous left computed)
    (hstatus : computed.status ≠ .limitExceeded) (other : Surroundings)
    (hsource : other.source input = found.source input) (hinput : other.input = found.input)
    (hyaml : other.yaml = found.yaml) {document : Document} (hdash : FilePath.isDash document.path = false)
    (hvalue : document.value = computed.schema.toJson) (hreads : document.ReadsBack found.yaml)
    (hkept : other.source document.path = .text document.text) (otherWidget : String) (otherLimit : Nat) :
    ∃ last, Infers other input (some document.path) otherWidget otherLimit sample computed.schema last
      ⟨.unchanged, computed.schema, []⟩ := by
  obtain ⟨rest, hsample, -⟩ := h.reads
  have hschema : DocumentReader.schema.read? other.yaml document.format document.text = some computed.schema := by
    rw [hyaml]
    refine Option.bind_eq_some_iff.mpr ⟨document.value, hreads, ?_⟩
    rw [hvalue]
    exact Schema.ofJson?_toJson_of_holds h.storable
  let later : Surroundings := { other with input := rest.input }
  have hprevious : later.readPrevious (some document.path) = .ok (computed.schema, later) :=
    Surroundings.read_of_text hdash hkept hschema
  refine ⟨later, ⟨later, Surroundings.read_of_same_source hsample hsource hinput hyaml, hprevious⟩, ?_⟩
  exact Schema.compute_of_skips (h.skips hstatus)

end Command.Infers

namespace World
variable {w : World}

end World

namespace Program

variable {yaml : YamlPackage}

def sampled : World := { files := [("sample.yaml", "\x7b\"a\": true\x7d")] }

end Program
end FormSchema
