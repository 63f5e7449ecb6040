import FormSchema.FieldState
import FormSchema.Proofs.OrderedMap

/-!
Stored states read back. A state is read from what is written for it, in the same form at every place,
unless it has an object without fields in it: that reads as the state of one field. No state that was read
has one.
-/
namespace FormSchema
open OrderedMap (Distinct)

namespace LeafState

theorem ofJson?_toJson (state : LeafState) : ofJson? state.toJson = some state := by
  obtain ⟨isDisabled, isRequired, isVisible, isValid, filterText⟩ := state
  cases filterText <;> rfl

/-- One of the values is not that of its member. -/
private theorem ofValues?_eq_none {isDisabled isRequired isVisible isValid filterText : Option Json}
    (h : flag? false isDisabled = none ∨ flag? false isRequired = none ∨ flag? true isVisible = none ∨
      flag? true isValid = none ∨ text? filterText = none) :
    ofValues? isDisabled isRequired isVisible isValid filterText = none := by
  rw [ofValues?]
  rcases h with h | h | h | h | h <;> simp [h]

end LeafState

namespace FieldState

def parts : FieldState → List FieldState
  | .array elements => elements
  | .leaf _ => []
  | .object fields => OrderedMap.values fields

inductive Everywhere (p : FieldState → Prop) : FieldState → Prop
  | intro {state : FieldState} (here : p state) (inside : ∀ part ∈ state.parts, Everywhere p part) :
    Everywhere p state

def KeysDistinct : FieldState → Prop
  | .object fields => Distinct fields
  | _ => True

def Filled : FieldState → Prop
  | .object fields => fields ≠ []
  | _ => True

/-- Every object in the state has fields, and none of them twice. -/
abbrev Proper (state : FieldState) : Prop := state.Everywhere fun part => part.KeysDistinct ∧ part.Filled

variable {p : FieldState → Prop}

theorem everywhere_array_iff {elements : List FieldState} : (array elements).Everywhere p ↔
    p (.array elements) ∧ ∀ element ∈ elements, element.Everywhere p :=
  ⟨fun ⟨here, inside⟩ => ⟨here, inside⟩, fun h => .intro h.1 h.2⟩

theorem everywhere_leaf_iff {state : LeafState} : (leaf state).Everywhere p ↔ p (.leaf state) :=
  ⟨fun ⟨here, _⟩ => here, fun h => .intro h (by simp [parts])⟩

theorem everywhere_object_iff {fields : List (String × FieldState)} : (object fields).Everywhere p ↔
    p (.object fields) ∧ ∀ field ∈ fields, field.2.Everywhere p := by
  have hparts : (∀ part ∈ (object fields).parts, part.Everywhere p) ↔
      ∀ field ∈ fields, field.2.Everywhere p := by
    rw [parts, OrderedMap.values, List.forall_mem_map]
  exact ⟨fun ⟨here, inside⟩ => ⟨here, hparts.mp inside⟩, fun h => .intro h.1 (hparts.mpr h.2)⟩

/-- What is written for a state is an array or an object, and so not the value of a leaf's member. -/
private theorem flag?_toJson (default : Bool) (state : FieldState) :
    LeafState.flag? default (some state.toJson) = none := by
  cases state <;> rfl

private theorem text?_toJson (state : FieldState) : LeafState.text? (some state.toJson) = none := by
  cases state <;> rfl

/-- Fields do not read as a leaf, whatever their keys. -/
private theorem leaf_ofJson?_fields {fields : List (String × FieldState)} (h : fields ≠ []) :
    LeafState.ofJson? (.object (fieldsToJson fields)) = none := by
  obtain ⟨⟨key, state⟩, rest, rfl⟩ := List.exists_cons_of_ne_nil h
  rw [fieldsToJson, LeafState.ofJson?]
  split
  · rename_i hmembers
    have hkey : key ∈ LeafState.memberNames := by simp_all
    have hvalue : OrderedMap.get? ((key, state.toJson) :: fieldsToJson rest) key = some state.toJson := by
      rw [OrderedMap.get?, if_pos rfl]
    apply LeafState.ofValues?_eq_none
    simp only [LeafState.memberNames, List.mem_cons, List.not_mem_nil, or_false] at hkey
    rcases hkey with rfl | rfl | rfl | rfl | rfl
    all_goals simp [hvalue, flag?_toJson, text?_toJson]
  · rfl

mutual
/-- A state whose objects have fields, each once, is read back. -/
theorem ofJson?_toJson {state : FieldState} (h : state.Proper) : ofJson? state.toJson = some state := by
  match state with
  | .array elements => rw [toJson, ofJson?, elementsOf?_elementsToJson (everywhere_array_iff.mp h).2]
  | .leaf state =>
    have hleaf := state.ofJson?_toJson
    rw [LeafState.toJson] at hleaf
    rw [toJson, LeafState.toJson, ofJson?, hleaf]
  | .object fields =>
    obtain ⟨⟨hdistinct, hfilled⟩, hfields⟩ := everywhere_object_iff.mp h
    rw [toJson, ofJson?, leaf_ofJson?_fields hfilled, fieldsOf?_fieldsToJson hfields, Option.map_some,
      OrderedMap.Distinct.ofList_eq hdistinct]

private theorem elementsOf?_elementsToJson {elements : List FieldState} (h : ∀ element ∈ elements, element.Proper) :
    elementsOf? (elementsToJson elements) = some elements := by
  match elements with
  | [] => rfl
  | element :: rest =>
    obtain ⟨hfirst, hrest⟩ := List.forall_mem_cons.mp h
    rw [elementsToJson, elementsOf?, ofJson?_toJson hfirst, elementsOf?_elementsToJson hrest]

private theorem fieldsOf?_fieldsToJson {fields : List (String × FieldState)} (h : ∀ field ∈ fields, field.2.Proper) :
    fieldsOf? (fieldsToJson fields) = some fields := by
  match fields with
  | [] => rfl
  | (key, state) :: rest =>
    obtain ⟨hfirst, hrest⟩ := List.forall_mem_cons.mp h
    rw [fieldsToJson, fieldsOf?, ofJson?_toJson hfirst, fieldsOf?_fieldsToJson hrest]
end

private theorem keys_of_fieldsOf? {entries : List (String × Json)} {fields : List (String × FieldState)}
    (h : fieldsOf? entries = some fields) : OrderedMap.keys fields = OrderedMap.keys entries := by
  induction entries generalizing fields with
  | nil =>
    cases h
    rfl
  | cons entry rest ih =>
    rw [fieldsOf?] at h
    split at h
    · rename_i hrest
      cases h
      rw [OrderedMap.keys_cons, OrderedMap.keys_cons, ih hrest]
    · cases h

mutual
/-- Every state that is read is proper: no fields at all read as a leaf. -/
private theorem proper_of_ofJson? {value : Json} {state : FieldState} (h : ofJson? value = some state) :
    state.Proper := by
  match value with
  | .array items =>
    rw [ofJson?] at h
    split at h
    · rename_i elements helements
      cases h
      exact everywhere_array_iff.mpr ⟨⟨trivial, trivial⟩, forall_proper_of_elementsOf? helements⟩
    · obtain ⟨leaf, -, rfl⟩ := Option.map_eq_some_iff.mp h
      exact everywhere_leaf_iff.mpr ⟨trivial, trivial⟩
  | .object entries =>
    rw [ofJson?] at h
    split at h
    · cases h
      exact everywhere_leaf_iff.mpr ⟨trivial, trivial⟩
    · rename_i hleaf
      obtain ⟨fields, hfields, rfl⟩ := Option.map_eq_some_iff.mp h
      have hentries : entries ≠ [] := by
        rintro rfl
        cases hleaf
      have hne : fields ≠ [] := by
        rintro rfl
        exact hentries (List.map_eq_nil_iff.mp (keys_of_fieldsOf? hfields).symm)
      refine everywhere_object_iff.mpr ⟨⟨OrderedMap.distinct_ofList fields, OrderedMap.ofList_ne_nil hne⟩, ?_⟩
      exact fun field hfield => forall_proper_of_fieldsOf? hfields field (OrderedMap.mem_ofList hfield)
  | .null | .bool _ | .int _ | .double _ | .string _ => cases h

private theorem forall_proper_of_elementsOf? {items : List Json} {elements : List FieldState}
    (h : elementsOf? items = some elements) : ∀ element ∈ elements, element.Proper := by
  match items with
  | [] =>
    cases h
    simp
  | item :: rest =>
    rw [elementsOf?] at h
    split at h
    · rename_i hitem hrest
      cases h
      exact List.forall_mem_cons.mpr ⟨proper_of_ofJson? hitem, forall_proper_of_elementsOf? hrest⟩
    · cases h

private theorem forall_proper_of_fieldsOf? {entries : List (String × Json)} {fields : List (String × FieldState)}
    (h : fieldsOf? entries = some fields) : ∀ field ∈ fields, field.2.Proper := by
  match entries with
  | [] =>
    cases h
    simp
  | (key, value) :: rest =>
    rw [fieldsOf?] at h
    split at h
    · rename_i hvalue hrest
      cases h
      exact List.forall_mem_cons.mpr ⟨proper_of_ofJson? hvalue, forall_proper_of_fieldsOf? hrest⟩
    · cases h
end

/-- Reading is stable. Exactly the proper states are read back from what is written for them, and every state
that is read, from whatever value, is one of these. -/
theorem ofJson?_stable : (∀ state : FieldState, ofJson? state.toJson = some state ↔ state.Proper) ∧
    ∀ (value : Json) (state : FieldState), ofJson? value = some state →
      state.Proper ∧ ofJson? state.toJson = some state :=
  ⟨fun _ => ⟨proper_of_ofJson?, ofJson?_toJson⟩,
    fun _ _ hread => ⟨proper_of_ofJson? hread, ofJson?_toJson (proper_of_ofJson? hread)⟩⟩

def awkwardValue : Json :=
  .array [.object [("isValid", .object []), ("filterText", .array [.bool true])], .object []]

def awkwardState : FieldState :=
  .array [.object [("isValid", .leaf {}), ("filterText", .leaf { isDisabled := true })], .leaf {}]

theorem ofJson?_stable_awkward : ofJson? awkwardValue = some awkwardState ∧
    awkwardState.Proper ∧ ofJson? awkwardState.toJson = some awkwardState :=
  ⟨rfl, ofJson?_stable.2 awkwardValue awkwardState rfl⟩

end FieldState
end FormSchema
