import FormSchema.Proofs.Sample
import Mathlib.Data.List.Forall2
import Mathlib.Data.List.Perm.Subperm

/-!
Samples that differ at most in the order of their keys. Merging the objects of an array does not see
the difference, so the values that stand for the elements differ at most in that way too.
-/
namespace FormSchema

namespace Json
open OrderedMap (keys Distinct)

/-- Values without a repeated key that are equal up to the order of keys. -/
structure Reordered (a b : Json) : Prop where
  left : a.WellFormed
  right : b.WellFormed
  same : a.same b = true

private theorem sameItems_iff {a b : List Json} :
    sameItems a b = true ↔ List.Forall₂ (fun x y => x.same y = true) a b := by
  induction a generalizing b with
  | nil => cases b <;> simp [sameItems]
  | cons first rest ih => cases b <;> simp [sameItems, ih]

private theorem entriesWithin_iff {a b : List (String × Json)} : entriesWithin a b = true ↔
    ∀ entry ∈ a, ∃ value, OrderedMap.get? b entry.1 = some value ∧ entry.2.same value = true := by
  induction a with
  | nil => simp [entriesWithin]
  | cons first rest ih =>
    obtain ⟨key, value⟩ := first
    rw [entriesWithin, Bool.and_eq_true, ih, List.forall_mem_cons]
    refine and_congr_left fun _ => ?_
    cases OrderedMap.get? b key <;> simp

theorem wellFormed_array_iff {items : List Json} :
    (Json.array items).WellFormed ↔ ∀ item ∈ items, item.WellFormed := by
  simp only [wellFormed_iff, everywhere_array_iff]
  exact ⟨And.right, fun h => ⟨trivial, h⟩⟩

theorem wellFormed_object_iff {entries : OrderedMap Json} :
    (Json.object entries).WellFormed ↔ Distinct entries ∧ ∀ entry ∈ entries, entry.2.WellFormed := by
  simp only [wellFormed_iff, everywhere_object_iff]
  exact .rfl

private theorem reordered_array_iff {a b : List Json} :
    (Json.array a).Reordered (.array b) ↔ List.Forall₂ Reordered a b := by
  constructor
  · rintro ⟨hleft, hright, hsame⟩
    rw [wellFormed_array_iff] at hleft hright
    rw [same, sameItems_iff] at hsame
    induction hsame with
    | nil => exact .nil
    | cons hfirst _ ih =>
      obtain ⟨hx, hxs⟩ := List.forall_mem_cons.mp hleft
      obtain ⟨hy, hys⟩ := List.forall_mem_cons.mp hright
      exact .cons ⟨hx, hy, hfirst⟩ (ih hxs hys)
  · intro h
    refine ⟨wellFormed_array_iff.mpr ?_, wellFormed_array_iff.mpr ?_, ?_⟩
    · induction h with
      | nil => simp
      | cons hfirst _ ih => exact List.forall_mem_cons.mpr ⟨hfirst.left, ih⟩
    · induction h with
      | nil => simp
      | cons hfirst _ ih => exact List.forall_mem_cons.mpr ⟨hfirst.right, ih⟩
    · rw [same, sameItems_iff]
      exact h.imp fun _ _ => Reordered.same

private theorem mem_keys_of_same {a b : OrderedMap Json} (ha : Distinct a) (hlength : a.length = b.length)
    (hwithin : ∀ key ∈ keys a, key ∈ keys b) {key : String} (h : key ∈ keys b) : key ∈ keys a := by
  have hperm : (keys a).Perm (keys b) := by
    refine (List.subperm_of_subset ha hwithin).perm_of_length_le ?_
    simp [keys, hlength]
  exact hperm.mem_iff.mpr h

theorem exists_right_of_rel {r : Json → Json → Prop} {x : Json} {right : Option Json}
    (h : Option.Rel r (some x) right) : ∃ y, right = some y ∧ r x y := by
  cases h with
  | some hxy => exact ⟨_, rfl, hxy⟩

theorem exists_left_of_rel {r : Json → Json → Prop} {left : Option Json} {y : Json}
    (h : Option.Rel r left (some y)) : ∃ x, left = some x ∧ r x y := by
  cases h with
  | some hxy => exact ⟨_, rfl, hxy⟩

/-- Maps that give related values to every key have the same keys. -/
theorem perm_keys_of_rel {a b : OrderedMap Json} (ha : Distinct a) (hb : Distinct b)
    (h : ∀ key, Option.Rel Reordered (OrderedMap.get? a key) (OrderedMap.get? b key)) :
    (keys a).Perm (keys b) := by
  refine (List.perm_ext_iff_of_nodup ha hb).mpr fun key => ⟨fun hkey => ?_, fun hkey => ?_⟩
  · obtain ⟨x, hx⟩ := OrderedMap.mem_keys.mp hkey
    obtain ⟨y, hy, -⟩ := exists_right_of_rel (ha.get?_eq_some_iff.mpr hx ▸ h key)
    exact OrderedMap.mem_keys_of_mem (OrderedMap.mem_of_get?_eq_some hy)
  · obtain ⟨y, hy⟩ := OrderedMap.mem_keys.mp hkey
    obtain ⟨x, hx, -⟩ := exists_left_of_rel (hb.get?_eq_some_iff.mpr hy ▸ h key)
    exact OrderedMap.mem_keys_of_mem (OrderedMap.mem_of_get?_eq_some hx)

/-- Objects without a repeated key are equal up to order if every key has the same value in both. -/
theorem reordered_object_iff {a b : OrderedMap Json} : (Json.object a).Reordered (.object b) ↔
    Distinct a ∧ Distinct b ∧
      ∀ key, Option.Rel Reordered (OrderedMap.get? a key) (OrderedMap.get? b key) := by
  constructor
  · rintro ⟨hleft, hright, hsame⟩
    rw [wellFormed_object_iff] at hleft hright
    rw [same, Bool.and_eq_true, decide_eq_true_eq, entriesWithin_iff] at hsame
    refine ⟨hleft.1, hright.1, fun key => ?_⟩
    cases hvalue : OrderedMap.get? a key with
    | none =>
      have hnone : OrderedMap.get? b key = none := by
        rw [OrderedMap.get?_eq_none_iff] at hvalue ⊢
        refine fun hkey => hvalue (mem_keys_of_same hleft.1 hsame.1 (fun key hkey => ?_) hkey)
        obtain ⟨value, hmem⟩ := OrderedMap.mem_keys.mp hkey
        obtain ⟨found, hfound, -⟩ := hsame.2 _ hmem
        exact OrderedMap.mem_keys_of_mem (OrderedMap.mem_of_get?_eq_some hfound)
      rw [hnone]
      exact .none
    | some value =>
      have hmem := OrderedMap.mem_of_get?_eq_some hvalue
      obtain ⟨found, hfound, hvalues⟩ := hsame.2 _ hmem
      rw [hfound]
      exact .some ⟨hleft.2 _ hmem, hright.2 _ (OrderedMap.mem_of_get?_eq_some hfound), hvalues⟩
  · rintro ⟨ha, hb, hvalues⟩
    have hleft : ∀ entry ∈ a, ∃ value, OrderedMap.get? b entry.1 = some value ∧ entry.2.Reordered value :=
      fun entry hentry => exists_right_of_rel (ha.get?_of_mem hentry ▸ hvalues entry.1)
    have hright : ∀ entry ∈ b, entry.2.WellFormed := by
      intro entry hentry
      obtain ⟨value, -, hreordered⟩ := exists_left_of_rel (hb.get?_of_mem hentry ▸ hvalues entry.1)
      exact hreordered.right
    refine ⟨wellFormed_object_iff.mpr ⟨ha, fun entry hentry => ?_⟩, wellFormed_object_iff.mpr ⟨hb, hright⟩, ?_⟩
    · obtain ⟨value, -, hreordered⟩ := hleft entry hentry
      exact hreordered.left
    · have hlength := (perm_keys_of_rel ha hb hvalues).length_eq
      rw [keys, keys, List.length_map, List.length_map] at hlength
      rw [same, Bool.and_eq_true, decide_eq_true_eq, entriesWithin_iff]
      refine ⟨hlength, fun entry hentry => ?_⟩
      obtain ⟨value, hfound, hreordered⟩ := hleft entry hentry
      exact ⟨value, hfound, hreordered.same⟩

theorem Reordered.refl {value : Json} (h : value.WellFormed) : value.Reordered value := by
  rw [wellFormed_iff] at h
  induction h with
  | @intro value here _ ih =>
    cases value with
    | array items => exact reordered_array_iff.mpr (List.forall₂_same.mpr ih)
    | object entries =>
      refine reordered_object_iff.mpr ⟨here, here, fun key => ?_⟩
      cases hvalue : OrderedMap.get? entries key with
      | none => exact .none
      | some value => exact .some (ih value (List.mem_map_of_mem (OrderedMap.mem_of_get?_eq_some hvalue)))
    | double d => exact ⟨trivial, trivial, by simp [Json.same, Double.same]⟩
    | null | bool | int | string => exact ⟨trivial, trivial, by simp [Json.same]⟩

private theorem forall₂_euclidean {r : Json → Json → Prop} {xs ys zs : List Json}
    (h : ∀ x ∈ xs, ∀ {y z}, r x y → r x z → r y z) (hys : List.Forall₂ r xs ys) (hzs : List.Forall₂ r xs zs) :
    List.Forall₂ r ys zs := by
  induction hys generalizing zs with
  | nil =>
    cases hzs
    exact .nil
  | cons hy _ ih =>
    obtain ⟨hfirst, hrest⟩ := List.forall_mem_cons.mp h
    cases hzs with
    | cons hz hzs => exact .cons (hfirst hy hz) (ih hrest hzs)

/-- Values that one value is equal to up to order are so to each other. -/
theorem Reordered.euclidean {a b c : Json} (hb : a.Reordered b) (hc : a.Reordered c) : b.Reordered c := by
  have hleft := (wellFormed_iff a).mp hb.left
  induction hleft generalizing b c with
  | @intro value here _ ih =>
    have hbsame := hb.same
    have hcsame := hc.same
    cases value with
    | array items =>
      cases b <;> simp only [Json.same, Bool.false_eq_true] at hbsame
      cases c <;> simp only [Json.same, Bool.false_eq_true] at hcsame
      exact reordered_array_iff.mpr
        (forall₂_euclidean ih (reordered_array_iff.mp hb) (reordered_array_iff.mp hc))
    | object entries =>
      cases b <;> simp only [Json.same, Bool.false_eq_true] at hbsame
      cases c <;> simp only [Json.same, Bool.false_eq_true] at hcsame
      rename_i ys zs
      obtain ⟨-, hys, hyvalues⟩ := reordered_object_iff.mp hb
      obtain ⟨-, hzs, hzvalues⟩ := reordered_object_iff.mp hc
      refine reordered_object_iff.mpr ⟨hys, hzs, fun key => ?_⟩
      have hy := hyvalues key
      have hz := hzvalues key
      generalize hx : OrderedMap.get? entries key = x, OrderedMap.get? ys key = y, OrderedMap.get? zs key = z
        at hy hz ⊢
      cases hy with
      | none =>
        cases hz
        exact .none
      | some hy =>
        cases hz with
        | some hz => exact .some (ih _ (List.mem_map_of_mem (OrderedMap.mem_of_get?_eq_some hx)) hy hz)
    | double d =>
      cases b <;> simp only [Json.same, Bool.false_eq_true] at hbsame
      cases c <;> simp only [Json.same, Bool.false_eq_true] at hcsame
      refine ⟨trivial, trivial, ?_⟩
      simp only [Json.same, Double.same] at *
      grind
    | null | bool | int | string =>
      cases b <;> simp only [Json.same, Bool.false_eq_true] at hbsame
      cases c <;> simp only [Json.same, Bool.false_eq_true] at hcsame
      exact ⟨trivial, trivial, by simp_all [Json.same]⟩

/-- Values that are equal up to order have one type, and containers have such parts. -/
theorem Reordered.cases {a b : Json} (h : a.Reordered b) :
    (∃ x y, a = .object x ∧ b = .object y ∧ Distinct x ∧ Distinct y ∧
      ∀ key, Option.Rel Reordered (OrderedMap.get? x key) (OrderedMap.get? y key)) ∨
    (∃ x y, a = .array x ∧ b = .array y ∧ List.Forall₂ Reordered x y) ∨
    (DataType.of (some a) = DataType.of (some b) ∧ DataType.of (some a) ≠ .object ∧
      DataType.of (some a) ≠ .array) := by
  have hsame := h.same
  cases a <;> cases b <;> simp only [Json.same, Bool.false_eq_true] at hsame
  case object.object x y => exact .inl ⟨x, y, rfl, rfl, reordered_object_iff.mp h⟩
  case array.array x y => exact .inr (.inl ⟨x, y, rfl, rfl, reordered_array_iff.mp h⟩)
  all_goals exact .inr (.inr ⟨rfl, by simp [DataType.of], by simp [DataType.of]⟩)

theorem Reordered.dataType_eq {a b : Json} (h : a.Reordered b) :
    DataType.of (some a) = DataType.of (some b) := by
  obtain ⟨x, y, rfl, rfl, -⟩ | ⟨x, y, rfl, rfl, -⟩ | ⟨htype, -⟩ := h.cases
  · rfl
  · rfl
  · exact htype

private theorem isObject_eq_decide (value : Json) : value.isObject = decide (DataType.of (some value) = .object) := by
  cases value <;> rfl

theorem Reordered.isObject_eq {a b : Json} (h : a.Reordered b) : a.isObject = b.isObject := by
  rw [isObject_eq_decide, isObject_eq_decide, h.dataType_eq]

/-- Of the values without parts, only null is empty. -/
private theorem isEmpty_eq_decide {value : Json} (hobject : DataType.of (some value) ≠ .object)
    (harray : DataType.of (some value) ≠ .array) :
    value.isEmpty = decide (DataType.of (some value) = .null) := by
  cases value with
  | object entries => exact absurd rfl hobject
  | array items => exact absurd rfl harray
  | _ => rfl

private theorem Reordered.isEmpty_eq {a b : Json} (h : a.Reordered b) : a.isEmpty = b.isEmpty := by
  obtain ⟨x, y, rfl, rfl, hx, hy, hvalues⟩ | ⟨x, y, rfl, rfl, hitems⟩ | ⟨htype, hobject, harray⟩ := h.cases
  · have hperm := perm_keys_of_rel hx hy hvalues
    rw [keys, keys] at hperm
    simpa [isEmpty] using hperm.isEmpty_eq
  · cases hitems <;> rfl
  · rw [isEmpty_eq_decide hobject harray, isEmpty_eq_decide (htype ▸ hobject) (htype ▸ harray), htype]

theorem exists_entries_of_isObject {value : Json} (h : value.isObject = true) :
    ∃ entries, value = .object entries := by
  cases value with
  | object entries => exact ⟨entries, rfl⟩
  | _ => cases h

theorem mergeValue_none (incoming : Json) : mergeValue none incoming = incoming := by
  cases incoming <;> simp only [mergeValue]

/-- Two values that are not both objects do not merge: one of them is taken. -/
theorem mergeValue_of_not_objects {value incoming : Json} (h : (incoming.isObject && value.isObject) = false) :
    mergeValue (some value) incoming = if incoming.isEmpty && !value.isEmpty then value else incoming := by
  cases incoming with
  | object entries =>
    cases value with
    | object fields => cases h
    | _ => simp only [mergeValue]
  | _ => simp only [mergeValue]

/-- Each key of the merged entries has what merging makes of its values. -/
theorem get?_mergeEntries (fields : OrderedMap Json) {incoming : OrderedMap Json} (h : Distinct incoming)
    (key : String) : OrderedMap.get? (mergeEntries fields incoming) key =
      match OrderedMap.get? incoming key with
      | none => OrderedMap.get? fields key
      | some value => some (mergeValue (OrderedMap.get? fields key) value) := by
  induction incoming generalizing fields with
  | nil => simp only [mergeEntries, OrderedMap.get?]
  | cons entry rest ih =>
    obtain ⟨first, value⟩ := entry
    obtain ⟨hfresh, hrest⟩ := Distinct.cons_iff.mp h
    rw [mergeEntries, ih _ hrest, OrderedMap.get?, OrderedMap.get?_insert]
    by_cases heq : first = key
    · subst heq
      rw [(OrderedMap.get?_eq_none_iff ..).mpr hfresh, if_pos rfl, if_pos rfl]
    · rw [if_neg heq, if_neg (Ne.symm heq)]

/-- Merged entries are equal up to order if merging sees no order in the values. -/
private theorem reordered_mergeEntries {entries entries' fields fields' : OrderedMap Json}
    (hentries : (Json.object entries).Reordered (.object entries'))
    (hfields : (Json.object fields).Reordered (.object fields'))
    (hmerge : ∀ key value value', OrderedMap.get? entries key = some value → value.Reordered value' →
      ∀ existing present, Option.Rel Reordered existing present →
        (mergeValue existing value).Reordered (mergeValue present value')) :
    (Json.object (mergeEntries fields entries)).Reordered (.object (mergeEntries fields' entries')) := by
  obtain ⟨hdistinct, hdistinct', hvalues⟩ := reordered_object_iff.mp hentries
  obtain ⟨hfirst, hsecond, hpresent⟩ := reordered_object_iff.mp hfields
  refine reordered_object_iff.mpr ⟨distinct_mergeEntries hfirst _, distinct_mergeEntries hsecond _, fun key => ?_⟩
  rw [get?_mergeEntries fields hdistinct, get?_mergeEntries fields' hdistinct']
  have hkey := hvalues key
  generalize hvalue : OrderedMap.get? entries key = value, OrderedMap.get? entries' key = value' at hkey ⊢
  cases hkey with
  | none => exact hpresent key
  | some hboth => exact .some (hmerge key _ _ hvalue hboth _ _ (hpresent key))

/-- Merging does not see the order of keys. -/
theorem Reordered.mergeValue {incoming other : Json} (h : incoming.Reordered other)
    {existing present : Option Json} (hexisting : Option.Rel Reordered existing present) :
    (Json.mergeValue existing incoming).Reordered (Json.mergeValue present other) := by
  cases hexisting with
  | none => rwa [mergeValue_none, mergeValue_none]
  | @some value found hvalue =>
    -- Two objects merge key by key; of any other two, emptiness alone decides which one is taken.
    cases hobjects : incoming.isObject && value.isObject with
    | true =>
      have hothers := hobjects
      rw [h.isObject_eq, hvalue.isObject_eq] at hothers
      obtain ⟨⟨entries, rfl⟩, ⟨fields, rfl⟩⟩ := (Bool.and_eq_true_iff.mp hobjects).imp
        exists_entries_of_isObject exists_entries_of_isObject
      obtain ⟨⟨entries', rfl⟩, ⟨fields', rfl⟩⟩ := (Bool.and_eq_true_iff.mp hothers).imp
        exists_entries_of_isObject exists_entries_of_isObject
      rw [Json.mergeValue, Json.mergeValue]
      exact reordered_mergeEntries h hvalue fun key _ _ hkey hboth _ _ => hboth.mergeValue
    | false =>
      have hothers := hobjects
      rw [h.isObject_eq, hvalue.isObject_eq] at hothers
      rw [mergeValue_of_not_objects hobjects, mergeValue_of_not_objects hothers, h.isEmpty_eq, hvalue.isEmpty_eq]
      split
      · exact hvalue
      · exact h
termination_by incoming.height
decreasing_by
  rw [‹incoming = _›]
  simpa only [height] using height_lt_of_get? hkey

private theorem reordered_plausibleObject {a b : List Json} (h : List.Forall₂ Reordered a b) :
    (Json.object (plausibleObject a)).Reordered (.object (plausibleObject b)) := by
  have hempty : (Json.object []).Reordered (.object []) :=
    reordered_object_iff.mpr ⟨List.nodup_nil, List.nodup_nil, fun _ => .none⟩
  -- The merged objects stay reorderings of each other, element after element.
  refine List.rel_foldl (R := Reordered) (P := fun merged merged' => (Json.object merged).Reordered (.object merged'))
    (fun merged merged' hmerged first second hfirst => ?_) hempty h
  cases hobject : first.isObject with
  | true =>
    obtain ⟨entries, rfl⟩ := exists_entries_of_isObject hobject
    obtain ⟨entries', rfl⟩ := exists_entries_of_isObject (hfirst.isObject_eq ▸ hobject)
    simpa only [Json.mergeValue] using hfirst.mergeValue (.some hmerged)
  | false =>
    have hother := hfirst.isObject_eq ▸ hobject
    cases first with
    | object entries => cases hobject
    | _ =>
      cases second with
      | object entries => cases hother
      | _ => exact hmerged

end Json

abbrev ReorderedSample : Option Json → Option Json → Prop := Option.Rel Json.Reordered

namespace ReorderedSample
variable {current recorded : Option Json}

theorem refl {sample : Option Json} (h : WellFormedSample sample) : ReorderedSample sample sample := by
  cases sample with
  | none => exact .none
  | some value => exact .some (.refl (h _ rfl))

theorem dataType_eq (h : ReorderedSample current recorded) : DataType.of current = DataType.of recorded := by
  cases h with
  | none => rfl
  | some hvalue => exact hvalue.dataType_eq

/-- Both are arrays whose elements are equal up to order, or none of them is an array. -/
private theorem array_or (h : ReorderedSample current recorded) :
    (∃ x y, current = some (.array x) ∧ recorded = some (.array y) ∧ List.Forall₂ Json.Reordered x y) ∨
    (DataType.of current ≠ .array ∧ DataType.of recorded ≠ .array) := by
  cases h with
  | none => exact .inr ⟨by decide, by decide⟩
  | some hvalue =>
    obtain ⟨x, y, rfl, rfl, -⟩ | ⟨x, y, rfl, rfl, hitems⟩ | ⟨htype, -, harray⟩ := hvalue.cases
    · exact .inr ⟨by simp [DataType.of], by simp [DataType.of]⟩
    · exact .inl ⟨x, y, rfl, rfl, hitems⟩
    · exact .inr ⟨harray, htype ▸ harray⟩

theorem exists_object {entries : OrderedMap Json} (h : ReorderedSample current (some (.object entries))) :
    ∃ other, current = some (.object other) ∧ (Json.object other).Reordered (.object entries) := by
  obtain ⟨value, rfl, hvalue⟩ := Json.exists_left_of_rel h
  obtain ⟨other, rfl⟩ := Json.exists_entries_of_isObject hvalue.isObject_eq
  exact ⟨other, rfl, hvalue⟩

private theorem elementType_eq (h : ReorderedSample current recorded) : elementType current = elementType recorded := by
  obtain ⟨x, y, rfl, rfl, hitems⟩ | ⟨hcurrent, hrecorded⟩ := h.array_or
  · cases hitems with
    | nil => rfl
    | cons hfirst _ => simp only [elementType, hfirst.dataType_eq]
  · rw [elementType_of_ne_array hcurrent, elementType_of_ne_array hrecorded]

theorem elementTypeChanged_eq_false (h : ReorderedSample current recorded) :
    elementTypeChanged current recorded = false := by
  unfold elementTypeChanged
  split
  · simp [h.elementType_eq]
  · rfl

/-- The values that the templates are inferred from are equal up to order too. -/
theorem representative (h : ReorderedSample current recorded) :
    ReorderedSample (FormSchema.representative current) (FormSchema.representative recorded) := by
  have htypes := h.elementType_eq
  obtain ⟨x, y, rfl, rfl, hitems⟩ | ⟨hcurrent, hrecorded⟩ := h.array_or
  · simp only [FormSchema.representative, htypes]
    split
    · exact .some (Json.reordered_plausibleObject hitems)
    · cases hitems with
      | nil => exact .none
      | cons hfirst _ => exact .some hfirst
  · rw [representative_of_ne_array hcurrent, representative_of_ne_array hrecorded]
    exact .some (Json.reordered_object_iff.mpr ⟨List.nodup_nil, List.nodup_nil, fun _ => .none⟩)

end ReorderedSample
end FormSchema
