import FormSchema.Build
import FormSchema.Proofs.OrderedMap

/-!
Properties that hold of a sample value and of everything inside it. Merging the objects of an array
keeps them, so they pass from an array to the value that its template is inferred from.
-/
namespace FormSchema

namespace Json
open OrderedMap (Distinct)

def parts : Json → List Json
  | .array items => items
  | .object entries => OrderedMap.values entries
  | _ => []

inductive Everywhere (p : Json → Prop) : Json → Prop
  | intro {value : Json} (here : p value) (inside : ∀ part ∈ value.parts, Everywhere p part) :
    Everywhere p value

variable {p : Json → Prop}

theorem Everywhere.here {value : Json} (h : value.Everywhere p) : p value := by
  cases h with
  | intro here inside => exact here

theorem Everywhere.inside {value : Json} (h : value.Everywhere p) :
    ∀ part ∈ value.parts, part.Everywhere p := by
  cases h with
  | intro here inside => exact inside

theorem everywhere_array_iff {items : List Json} : (Json.array items).Everywhere p ↔
    p (.array items) ∧ ∀ item ∈ items, item.Everywhere p :=
  ⟨fun h => ⟨h.here, h.inside⟩, fun h => .intro h.1 h.2⟩

theorem everywhere_object_iff {entries : List (String × Json)} : (Json.object entries).Everywhere p ↔
    p (.object entries) ∧ ∀ entry ∈ entries, entry.2.Everywhere p := by
  have hparts : (∀ part ∈ (Json.object entries).parts, part.Everywhere p) ↔
      ∀ entry ∈ entries, entry.2.Everywhere p := by
    rw [parts, OrderedMap.values, List.forall_mem_map]
  exact ⟨fun h => ⟨h.here, hparts.mp h.inside⟩, fun h => .intro h.1 (hparts.mpr h.2)⟩

theorem everywhere_leaf_iff {value : Json} (hleaf : value.parts = []) : value.Everywhere p ↔ p value :=
  ⟨Everywhere.here, fun h => .intro h (by simp [hleaf])⟩

theorem Everywhere.get? {entries : OrderedMap Json} (h : (Json.object entries).Everywhere p) {key : String}
    {value : Json} (hvalue : OrderedMap.get? entries key = some value) : value.Everywhere p :=
  (everywhere_object_iff.mp h).2 _ (OrderedMap.mem_of_get?_eq_some hvalue)

private theorem forall_mem_value_cons {key : String} {value : Json} {rest : List (String × Json)} :
    (∀ entry ∈ (key, value) :: rest, p entry.2) ↔ p value ∧ ∀ entry ∈ rest, p entry.2 := List.forall_mem_cons

mutual
def decideEverywhere (p : Json → Prop) [DecidablePred p] : (value : Json) → Decidable (value.Everywhere p)
  | .array items =>
    have := decideEverywhereItems p items
    decidable_of_iff _ everywhere_array_iff.symm
  | .object entries =>
    have := decideEverywhereEntries p entries
    decidable_of_iff _ everywhere_object_iff.symm
  | .null => decidable_of_iff _ (everywhere_leaf_iff rfl).symm
  | .bool _ => decidable_of_iff _ (everywhere_leaf_iff rfl).symm
  | .int _ => decidable_of_iff _ (everywhere_leaf_iff rfl).symm
  | .double _ => decidable_of_iff _ (everywhere_leaf_iff rfl).symm
  | .string _ => decidable_of_iff _ (everywhere_leaf_iff rfl).symm
termination_by structural value => value

def decideEverywhereItems (p : Json → Prop) [DecidablePred p] :
    (items : List Json) → Decidable (∀ item ∈ items, item.Everywhere p)
  | [] => isTrue (by simp)
  | item :: rest =>
    have := decideEverywhere p item
    have := decideEverywhereItems p rest
    decidable_of_iff _ List.forall_mem_cons.symm
termination_by structural items => items

def decideEverywhereEntries (p : Json → Prop) [DecidablePred p] :
    (entries : List (String × Json)) → Decidable (∀ entry ∈ entries, entry.2.Everywhere p)
  | [] => isTrue (by simp)
  | (_, value) :: rest =>
    have := decideEverywhere p value
    have := decideEverywhereEntries p rest
    decidable_of_iff _ forall_mem_value_cons.symm
termination_by structural entries => entries
end

instance (p : Json → Prop) [DecidablePred p] : DecidablePred (Everywhere p) := decideEverywhere p

/-- No key of the value, if it is an object, is given twice. -/
def KeysDistinct : Json → Prop
  | .object entries => Distinct entries
  | _ => True

mutual
theorem wellFormed_iff (value : Json) : value.WellFormed ↔ value.Everywhere KeysDistinct := by
  match value with
  | .array items =>
    rw [WellFormed, itemsWellFormed_iff items, everywhere_array_iff]
    exact ⟨fun h => ⟨trivial, h⟩, And.right⟩
  | .object entries =>
    rw [WellFormed, entriesWellFormed_iff entries, everywhere_object_iff]
    exact .rfl
  | .null | .bool _ | .int _ | .double _ | .string _ =>
    rw [everywhere_leaf_iff rfl]
    exact .rfl

theorem itemsWellFormed_iff (items : List Json) :
    ItemsWellFormed items ↔ ∀ item ∈ items, item.Everywhere KeysDistinct := by
  match items with
  | [] => simp [ItemsWellFormed]
  | item :: rest =>
    rw [ItemsWellFormed, wellFormed_iff item, itemsWellFormed_iff rest, List.forall_mem_cons]

private theorem entriesWellFormed_iff (entries : List (String × Json)) :
    EntriesWellFormed entries ↔ ∀ entry ∈ entries, entry.2.Everywhere KeysDistinct := by
  match entries with
  | [] => simp [EntriesWellFormed]
  | (key, value) :: rest =>
    rw [EntriesWellFormed, wellFormed_iff value, entriesWellFormed_iff rest, List.forall_mem_cons]
end

/-- A property of objects that merging keeps. -/
structure Mergeable (p : Json → Prop) : Prop where
  empty : p (.object [])
  merge : ∀ {fields incoming}, p (.object fields) → p (.object incoming) →
    p (.object (mergeEntries fields incoming))

theorem distinct_mergeEntries {fields : OrderedMap Json} (h : Distinct fields)
    (incoming : OrderedMap Json) : Distinct (mergeEntries fields incoming) := by
  induction incoming generalizing fields with
  | nil => simpa only [mergeEntries] using h
  | cons entry rest ih =>
    obtain ⟨key, value⟩ := entry
    rw [mergeEntries]
    exact ih (OrderedMap.distinct_insert h ..)

theorem mergeable_keysDistinct : Mergeable KeysDistinct where
  empty := List.nodup_nil
  merge h _ := distinct_mergeEntries h _

private theorem everywhere_insert {fields : OrderedMap Json} (h : ∀ entry ∈ fields, entry.2.Everywhere p)
    {value : Json} (hvalue : value.Everywhere p) (key : String) :
    ∀ entry ∈ OrderedMap.insert fields key value, entry.2.Everywhere p := by
  intro entry hentry
  rcases OrderedMap.mem_insert hentry with hentry | rfl
  · exact h entry hentry
  · exact hvalue

mutual
theorem everywhere_mergeValue (hp : Mergeable p) {existing : Option Json}
    (hexisting : ∀ value ∈ existing, value.Everywhere p) (incoming : Json) (hincoming : incoming.Everywhere p) :
    (mergeValue existing incoming).Everywhere p := by
  have hkept : ∀ value ∈ existing, ∀ replaced : Bool,
      (if replaced then value else incoming).Everywhere p := by
    intro value hvalue replaced
    cases replaced
    · exact hincoming
    · exact hexisting value hvalue
  match incoming, existing with
  | .object entries, some (.object fields) =>
    obtain ⟨hfields, heach⟩ := everywhere_object_iff.mp (hexisting _ rfl)
    obtain ⟨hentries, heach'⟩ := everywhere_object_iff.mp hincoming
    rw [mergeValue]
    exact everywhere_object_iff.mpr
      ⟨hp.merge hfields hentries, everywhere_mergeEntries hp heach entries heach'⟩
  | .null, none | .bool _, none | .int _, none | .double _, none | .string _, none | .array _, none
  | .object _, none => simpa only [mergeValue] using hincoming
  | .null, some value | .bool _, some value | .int _, some value | .double _, some value
  | .string _, some value | .array _, some value =>
    rw [mergeValue]
    · exact hkept value rfl _
    all_goals simp
  | .object entries, some .null | .object entries, some (.bool _) | .object entries, some (.int _)
  | .object entries, some (.double _) | .object entries, some (.string _)
  | .object entries, some (.array _) =>
    rw [mergeValue]
    · exact hkept _ rfl _
    all_goals simp

private theorem everywhere_mergeEntries (hp : Mergeable p) {fields : List (String × Json)}
    (hfields : ∀ entry ∈ fields, entry.2.Everywhere p) (incoming : List (String × Json))
    (hincoming : ∀ entry ∈ incoming, entry.2.Everywhere p) :
    ∀ entry ∈ mergeEntries fields incoming, entry.2.Everywhere p := by
  match incoming with
  | [] => simpa only [mergeEntries] using hfields
  | (key, value) :: rest =>
    obtain ⟨hvalue, hrest⟩ := List.forall_mem_cons.mp hincoming
    have hexisting : ∀ found ∈ OrderedMap.get? fields key, found.Everywhere p :=
      fun found hfound => hfields _ (OrderedMap.mem_of_get?_eq_some hfound)
    have hmerged := everywhere_mergeValue hp hexisting value hvalue
    rw [mergeEntries]
    exact everywhere_mergeEntries hp (everywhere_insert hfields hmerged key) rest hrest
end

theorem everywhere_plausibleObject (hp : Mergeable p) {items : List Json}
    (h : ∀ item ∈ items, item.Everywhere p) : (Json.object (plausibleObject items)).Everywhere p := by
  suffices hfold : ∀ merged : OrderedMap Json, (Json.object merged).Everywhere p →
      (Json.object (items.foldl (fun merged item => match item with
        | .object entries => mergeEntries merged entries
        | _ => merged) merged)).Everywhere p from
    hfold [] (everywhere_object_iff.mpr ⟨hp.empty, by simp⟩)
  induction items with
  | nil => exact fun _ hmerged => hmerged
  | cons item rest ih =>
    obtain ⟨hitem, hrest⟩ := List.forall_mem_cons.mp h
    intro merged hmerged
    rw [List.foldl_cons]
    apply ih hrest
    cases item with
    | object entries =>
      obtain ⟨hfields, heach⟩ := everywhere_object_iff.mp hmerged
      obtain ⟨hentries, heach'⟩ := everywhere_object_iff.mp hitem
      exact everywhere_object_iff.mpr ⟨hp.merge hfields hentries, everywhere_mergeEntries hp heach entries heach'⟩
    | _ => exact hmerged

end Json

theorem elementType_of_ne_array {sample : Option Json} (h : DataType.of sample ≠ .array) :
    elementType sample = none := by
  match sample with
  | some (.array items) => exact absurd rfl h
  | none | some .null | some (.bool _) | some (.int _) | some (.double _) | some (.string _)
  | some (.object _) => rfl

/-- The template of an array item whose sample is no array stands for an empty object. -/
theorem representative_of_ne_array {sample : Option Json} (h : DataType.of sample ≠ .array) :
    representative sample = some (.object []) := by
  match sample with
  | some (.array items) => exact absurd rfl h
  | none | some .null | some (.bool _) | some (.int _) | some (.double _) | some (.string _)
  | some (.object _) => rfl

/-- The value that a template is inferred from inherits what holds everywhere in the sample. -/
theorem everywhere_representative {p : Json → Prop} (hp : Json.Mergeable p) {sample : Option Json}
    (h : ∀ value ∈ sample, value.Everywhere p) : ∀ value ∈ representative sample, value.Everywhere p := by
  intro value hvalue
  unfold representative at hvalue
  split at hvalue
  · obtain ⟨-, hitems⟩ := Json.everywhere_array_iff.mp (h _ rfl)
    split at hvalue
    · cases hvalue
      exact Json.everywhere_plausibleObject hp hitems
    · exact hitems value (List.mem_of_mem_head? hvalue)
  · cases hvalue
    exact Json.everywhere_object_iff.mpr ⟨hp.empty, by simp⟩

/-- The value of a key inherits what holds everywhere in the object. -/
theorem everywhere_value {p : Json → Prop} {entries : OrderedMap Json}
    (h : ∀ value ∈ some (Json.object entries), value.Everywhere p) {key : String} {value : Json}
    (hvalue : OrderedMap.get? entries key = some value) : ∀ inner ∈ some value, inner.Everywhere p := by
  rintro _ ⟨⟩
  exact (h _ rfl).get? hvalue

def WellFormedSample (sample : Option Json) : Prop := ∀ value ∈ sample, value.WellFormed

theorem wellFormedSample_some {value : Json} : WellFormedSample (some value) ↔ value.WellFormed := by
  simp [WellFormedSample]

namespace WellFormedSample
variable {sample : Option Json}

theorem representative (h : WellFormedSample sample) : WellFormedSample (FormSchema.representative sample) := by
  intro value hvalue
  rw [Json.wellFormed_iff]
  refine everywhere_representative Json.mergeable_keysDistinct (fun value hvalue => ?_) value hvalue
  rw [← Json.wellFormed_iff]
  exact h value hvalue

theorem distinct {entries : OrderedMap Json} (h : WellFormedSample (some (.object entries))) :
    OrderedMap.Distinct entries := ((Json.wellFormed_iff _).mp (h _ rfl)).here

theorem value {entries : OrderedMap Json} (h : WellFormedSample (some (.object entries))) {key : String}
    {value : Json} (hvalue : OrderedMap.get? entries key = some value) : WellFormedSample (some value) := by
  rw [wellFormedSample_some, Json.wellFormed_iff]
  exact ((Json.wellFormed_iff _).mp (h _ rfl)).get? hvalue

end WellFormedSample

/-- What is asked of a sample, if it passes to the samples of fields and templates. -/
structure Hereditary (good : Option Json → Prop) : Prop where
  wellFormed : ∀ {sample}, good sample → WellFormedSample sample
  value : ∀ {entries key value}, good (some (.object entries)) → OrderedMap.get? entries key = some value →
    good (some value)
  representative : ∀ {sample}, good sample → good (representative sample)

theorem hereditary_wellFormed : Hereditary WellFormedSample where
  wellFormed h := h
  value h hvalue := h.value hvalue
  representative h := h.representative

end FormSchema
