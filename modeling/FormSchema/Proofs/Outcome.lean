import FormSchema.Proofs.Level.Following

/-!
What reconciliation makes of an item, told by three outcomes, and the induction that follows its
calls. A fresh item is one whose children are reconciled with an empty level.
-/
namespace FormSchema
open OrderedMap (keys Distinct)

theorem elementTypeChanged_self (sample : Option Json) : elementTypeChanged sample sample = false := by
  unfold elementTypeChanged
  split <;> simp

/-- A record that is no array hides no change. -/
theorem elementTypeChanged_of_ne_array {current previous : Option Json}
    (h : ∀ items, previous ≠ some (.array items)) : elementTypeChanged current previous = false := by
  unfold elementTypeChanged
  split
  · exact absurd rfl (h _)
  · rfl

namespace Item

def recording (sample : Option Json) (item : Item) : Item := { item with sourceData := sample }

def withChildren (children : Schema) (item : Item) : Item := { item with children }

theorem recording_self (item : Item) : item.recording item.sourceData = item := by cases item; rfl

theorem withChildren_self (item : Item) : item.withChildren item.children = item := by cases item; rfl

theorem recording_recording (a b : Option Json) (item : Item) :
    (item.recording a).recording b = item.recording b := rfl

/-- The sample is gone, and the item stays as it was. -/
def Frozen (sample : Option Json) (item : Item) : Prop :=
  isNullish sample = true ∧ item.dataType.isNullish = false

/-- The types agree: equal, or both of a value that is not there. -/
def Agrees (sample : Option Json) (item : Item) : Prop :=
  DataType.of sample = item.dataType ∨ isNullish sample = true ∧ item.dataType.isNullish = true

/-- The item fits the shape of the sample, as far as its record tells. -/
structure Matches (sample : Option Json) (item : Item) : Prop where
  types : item.Agrees sample
  elements : elementTypeChanged sample item.sourceData = false

theorem Agrees.not_frozen {sample : Option Json} {item : Item} (h : item.Agrees sample) :
    ¬ item.Frozen sample := by
  rintro ⟨hsample, hitem⟩
  rcases h with heq | ⟨-, hnullish⟩
  · rw [isNullish, heq, hitem] at hsample
    cases hsample
  · rw [hitem] at hnullish
    cases hnullish

theorem Frozen.ne_object {sample : Option Json} {item : Item} (h : item.Frozen sample)
    (entries : OrderedMap Json) : sample ≠ some (.object entries) := by
  rintro rfl
  cases h.1

private theorem between_of_not_frozen {sample : Option Json} {item : Item} (h : ¬ item.Frozen sample) :
    Decision.between item sample = if (!(isNullish sample && item.dataType.isNullish) &&
      DataType.of sample ≠ item.dataType) || elementTypeChanged sample item.sourceData then .rebuild
    else .unchanged := by
  have hguard : (eitherNullish sample item.sourceData && isNullish sample && !item.dataType.isNullish) = false := by
    cases hsample : isNullish sample with
    | false => simp
    | true =>
      cases hitem : item.dataType.isNullish with
      | false => exact absurd ⟨hsample, hitem⟩ h
      | true => simp
  rw [Decision.between]
  exact if_neg (by simpa [isNullish] using hguard)

private theorem between_of_frozen {sample : Option Json} {item : Item} (h : item.Frozen sample) :
    Decision.between item sample = .keepShape := by
  have hguard : (eitherNullish sample item.sourceData && isNullish sample && !item.dataType.isNullish) = true := by
    simp [eitherNullish, h.1, h.2]
  rw [Decision.between]
  exact if_pos (by simpa [isNullish] using hguard)

theorem between_of_matches {sample : Option Json} {item : Item} (h : item.Matches sample) :
    Decision.between item sample = .unchanged := by
  rw [between_of_not_frozen h.types.not_frozen, if_neg]
  rcases h.types with heq | ⟨hsample, hitem⟩
  · simp [heq, h.elements]
  · simp [hsample, hitem, h.elements]

theorem matches_of_between {sample : Option Json} {item : Item}
    (h : Decision.between item sample = .unchanged) : item.Matches sample := by
  by_cases hfrozen : item.Frozen sample
  · rw [between_of_frozen hfrozen] at h
    cases h
  · rw [between_of_not_frozen hfrozen, ite_eq_right_iff] at h
    have hguard : ¬ ((!(isNullish sample && item.dataType.isNullish) &&
        DataType.of sample ≠ item.dataType) || elementTypeChanged sample item.sourceData) = true :=
      fun hguard => nomatch h hguard
    refine ⟨?_, Bool.eq_false_iff.mpr fun helements => hguard (by simp [helements])⟩
    by_cases heq : DataType.of sample = item.dataType
    · exact .inl heq
    · cases hsample : isNullish sample <;> cases hitem : item.dataType.isNullish <;> simp_all [Agrees]

theorem templateLevel_eq (template : Item) :
    templateLevel template = [(Identifier.arrayItem, template.movedTo 0)] := Schema.placed_singleton ..

def childrenFor (ctx : Context) (path : String) (kind : FieldType) (children : Schema)
    (sample : Option Json) : Schema :=
  if kind = .array then reconcileArray ctx path children sample
  else fieldChildren reconcile ctx path kind children sample

theorem childrenFor_array (ctx : Context) (path : String) (children : Schema) (sample : Option Json) :
    childrenFor ctx path .array children sample = templateLevel (reconcile ctx.enterArray (.template path)
      (OrderedMap.get? children Identifier.arrayItem) (representative sample)) := rfl

theorem childrenFor_object (ctx : Context) (path : String) (children : Schema)
    (entries : OrderedMap Json) : childrenFor ctx path .object children (some (.object entries)) =
      reconcileLevel ctx path children entries := rfl

/-- Only an array item and an object item over an object have children that follow the sample. -/
theorem childrenFor_other {kind : FieldType} {sample : Option Json} (harray : kind ≠ .array)
    (hobject : kind = .object → ∀ entries, sample ≠ some (.object entries)) (ctx : Context)
    (path : String) (children : Schema) : childrenFor ctx path kind children sample = children := by
  rw [childrenFor, if_neg harray]
  unfold fieldChildren
  split
  · exact absurd rfl (hobject rfl _)
  · rfl

/-- The children of a reconciled item: a template, the level of an object, or those it had. -/
theorem childrenFor_cases (ctx : Context) (path : String) (kind : FieldType) (children : Schema)
    (sample : Option Json) :
    (kind = .array ∧ childrenFor ctx path kind children sample = [(Identifier.arrayItem,
      (reconcile ctx.enterArray (.template path) (OrderedMap.get? children Identifier.arrayItem)
        (representative sample)).movedTo 0)]) ∨
    (∃ entries, kind = .object ∧ sample = some (.object entries) ∧
      childrenFor ctx path kind children sample = reconcileLevel ctx path children entries) ∨
    (kind ≠ .array ∧ (kind = .object → ∀ entries, sample ≠ some (.object entries)) ∧
      childrenFor ctx path kind children sample = children) := by
  by_cases harray : kind = .array
  · subst harray
    exact .inl ⟨rfl, templateLevel_eq _⟩
  · by_cases hobject : kind = .object ∧ ∃ entries, sample = some (.object entries)
    · obtain ⟨rfl, entries, rfl⟩ := hobject
      exact .inr (.inl ⟨entries, rfl, rfl, rfl⟩)
    · have hother : kind = .object → ∀ entries, sample ≠ some (.object entries) :=
        fun hkind entries hsample => hobject ⟨hkind, entries, hsample⟩
      exact .inr (.inr ⟨harray, hother, childrenFor_other harray hother ctx path children⟩)

/-- Without a level before, there are only new fields. -/
theorem reconcileLevel_nil (ctx : Context) (path : String) (entries : OrderedMap Json) :
    reconcileLevel ctx path [] entries = Schema.placed (entries.foldl (addField ctx path) [])
      (keys (entries.foldl (addField ctx path) [])) := by
  have hall : entries.filter (fun entry => !List.contains [] entry.1) = entries :=
    List.filter_eq_self.mpr fun _ _ => rfl
  show Schema.placed (List.foldl (addField ctx path) [] (entries.filter fun entry => !List.contains [] entry.1))
    (keys (List.foldl (addField ctx path) [] (entries.filter fun entry => !List.contains [] entry.1))) = _
  rw [hall]

/-- A fresh item has the children that an item without any would get. -/
theorem build_eq (ctx : Context) (spec : ItemSpec) (sample : Option Json) :
    build ctx spec sample =
      fresh ctx spec sample (childrenFor ctx spec.sourcePath (spec.kindFor sample) [] sample) := by
  rw [build]
  congr 1
  split
  · rename_i hkind
    split
    · rw [hkind, childrenFor_object, reconcileLevel_nil]
      rfl
    · rename_i hother
      have hsample : ∀ entries, sample ≠ some (.object entries) := by
        rintro entries rfl
        exact hother entries hkind rfl HEq.rfl
      rw [hkind]
      exact (childrenFor_other (by decide) (fun _ => hsample) ..).symm
  · rename_i hkind
    rw [hkind, childrenFor_array, OrderedMap.get?, reconcile_none]
    rfl
  · rename_i hobject harray
    exact (childrenFor_other harray (fun heq => absurd heq hobject) ..).symm

def chosenKind (previous : Option Item) : Option FieldType :=
  previous.bind fun item => if item.isFieldTypeOverridden then some item.fieldType else none

/-- What an item takes from the sample when it is built anew. -/
structure BuiltFrom (ctx : Context) (spec : ItemSpec) (previous : Option Item) (sample : Option Json)
    (item : Item) : Prop where
  dataType : item.dataType = DataType.of sample
  sourceData : item.sourceData = sample
  fieldType : item.fieldType = (spec.fieldType <|> chosenKind previous).getD (FieldType.infer sample)
  isFieldTypeOverridden : item.isFieldTypeOverridden = previous.any Item.isFieldTypeOverridden
  children : item.children = childrenFor ctx spec.sourcePath item.fieldType [] sample

theorem BuiltFrom.kind_of_none {ctx : Context} {spec : ItemSpec} {sample : Option Json} {item : Item}
    (h : BuiltFrom ctx spec none sample item) : item.fieldType = spec.kindFor sample := by
  rw [h.fieldType, ItemSpec.kindFor]
  cases spec.fieldType <;> rfl

theorem build_builtFrom (ctx : Context) (spec : ItemSpec) (sample : Option Json) :
    BuiltFrom ctx spec none sample (build ctx spec sample) := by
  rw [build_eq]
  refine ⟨rfl, rfl, ?_, rfl, rfl⟩
  show spec.kindFor sample = (spec.fieldType <|> none).getD (FieldType.infer sample)
  cases hkind : spec.fieldType <;> simp [ItemSpec.kindFor, hkind]

theorem rebuild_builtFrom (ctx : Context) (spec : ItemSpec) (item : Item) (sample : Option Json) :
    BuiltFrom ctx spec (some item) sample (rebuild ctx spec item sample) := by
  rw [rebuild, build_eq]
  exact ⟨rfl, rfl, rfl, rfl, rfl⟩

theorem reconcile_of_frozen {sample : Option Json} {item : Item} (h : item.Frozen sample) (ctx : Context)
    (spec : ItemSpec) : reconcile ctx spec (some item) sample = item.recording sample := by
  rw [reconcile_eq, between_of_frozen h]
  rfl

theorem reconcile_of_matches {sample : Option Json} {item : Item} (h : item.Matches sample) (ctx : Context)
    (spec : ItemSpec) : reconcile ctx spec (some item) sample =
      (item.withChildren (childrenFor ctx spec.sourcePath item.fieldType item.children sample)).recording
        sample := by
  rw [reconcile_eq, between_of_matches h]
  rfl

theorem Matches.children_reconcile {sample : Option Json} {item : Item} (h : item.Matches sample) (ctx : Context)
    (spec : ItemSpec) : (reconcile ctx spec (some item) sample).children =
      childrenFor ctx spec.sourcePath item.fieldType item.children sample := by
  rw [reconcile_of_matches h]
  rfl

/-- An object item that fits follows its object. -/
theorem Matches.children_reconcile_object {entries : OrderedMap Json} {item : Item}
    (h : item.Matches (some (.object entries))) (hkind : item.fieldType = .object) (ctx : Context) (spec : ItemSpec) :
    (reconcile ctx spec (some item) (some (.object entries))).children =
      reconcileLevel ctx spec.sourcePath item.children entries := by
  rw [h.children_reconcile, hkind, childrenFor_object]

/-- The template of an array item that fits follows what stands for the elements. -/
theorem Matches.children_reconcile_array {sample : Option Json} {item template : Item} (h : item.Matches sample)
    (hkind : item.fieldType = .array) (htemplate : OrderedMap.get? item.children Identifier.arrayItem = some template)
    (ctx : Context) (spec : ItemSpec) : (reconcile ctx spec (some item) sample).children = [(Identifier.arrayItem,
      (reconcile ctx.enterArray (.template spec.sourcePath) (some template) (representative sample)).movedTo 0)] := by
  rw [h.children_reconcile, hkind, childrenFor_array, htemplate, templateLevel_eq]

theorem Matches.get?_reconcile_array {sample : Option Json} {item template : Item} (h : item.Matches sample)
    (hkind : item.fieldType = .array) (htemplate : OrderedMap.get? item.children Identifier.arrayItem = some template)
    (ctx : Context) (spec : ItemSpec) :
    OrderedMap.get? (reconcile ctx spec (some item) sample).children Identifier.arrayItem =
      some ((reconcile ctx.enterArray (.template spec.sourcePath) (some template) (representative sample)).movedTo 0) := by
  rw [h.children_reconcile_array hkind htemplate, OrderedMap.get?, if_pos rfl]

theorem reconcile_of_changed {sample : Option Json} {item : Item} (hfrozen : ¬ item.Frozen sample)
    (hmatches : ¬ item.Matches sample) (ctx : Context) (spec : ItemSpec) :
    reconcile ctx spec (some item) sample = rebuild ctx spec item sample := by
  have hrebuild : Decision.between item sample = .rebuild := by
    cases hdecision : Decision.between item sample with
    | keepShape => rw [between_of_not_frozen hfrozen] at hdecision; split at hdecision <;> cases hdecision
    | rebuild => rfl
    | unchanged => exact absurd (matches_of_between hdecision) hmatches
  rw [reconcile_eq, hrebuild]

/-- The outcomes of reconciliation: the item is frozen, follows its sample, or is built anew. -/
theorem reconcile_cases (ctx : Context) (spec : ItemSpec) (previous : Option Item) (sample : Option Json) :
    (∃ item, previous = some item ∧ item.Frozen sample ∧
      reconcile ctx spec previous sample = item.recording sample) ∨
    (∃ item, previous = some item ∧ item.Matches sample ∧
      reconcile ctx spec previous sample = refresh ctx spec.sourcePath item sample) ∨
    ((∀ item, previous = some item → ¬ item.Frozen sample ∧ ¬ item.Matches sample) ∧
      BuiltFrom ctx spec previous sample (reconcile ctx spec previous sample)) := by
  cases previous with
  | none =>
    refine .inr (.inr ⟨by simp, ?_⟩)
    rw [reconcile_none]
    exact build_builtFrom ..
  | some item =>
    by_cases hfrozen : item.Frozen sample
    · exact .inl ⟨item, rfl, hfrozen, reconcile_of_frozen hfrozen ..⟩
    · by_cases hmatches : item.Matches sample
      · exact .inr (.inl ⟨item, rfl, hmatches, reconcile_of_matches hmatches ..⟩)
      · refine .inr (.inr ⟨?_, ?_⟩)
        · rintro _ ⟨⟩
          exact ⟨hfrozen, hmatches⟩
        · rw [reconcile_of_changed hfrozen hmatches]
          exact rebuild_builtFrom ..

/-- How deep the item before nests, with none at all below one without children. -/
def previousHeight : Option Item → Nat
  | none => 0
  | some item => item.height + 1

private theorem previousHeight_template_lt (item : Item) :
    previousHeight (OrderedMap.get? item.children Identifier.arrayItem) < previousHeight (some item) := by
  cases htemplate : OrderedMap.get? item.children Identifier.arrayItem with
  | none => exact Nat.succ_pos _
  | some template =>
    have := height_lt_of_get? htemplate
    rw [previousHeight, previousHeight, height_eq item]
    omega

/-- Induction along reconciliation: the fields of an object come before it, whatever stood for them,
and the template of an array comes before it with the template that was there, or with none. -/
theorem reconcile_induction {motive : ItemSpec → Option Item → Option Json → Prop}
    (step : ∀ spec previous sample,
      (∀ entries key value, sample = some (.object entries) → OrderedMap.get? entries key = some value →
        ∀ spec previous, motive spec previous (some value)) →
      (∀ item path, previous = some item → motive (.template path)
        (OrderedMap.get? item.children Identifier.arrayItem) (representative sample)) →
      (∀ path, (previous = none → spec.kindFor sample = .array) →
        motive (.template path) none (representative sample)) →
      motive spec previous sample)
    (spec : ItemSpec) (previous : Option Item) (sample : Option Json) : motive spec previous sample := by
  refine step spec previous sample (fun entries key value hsample hvalue spec' previous' => ?_)
    (fun item path hitem => ?_) fun path hkind => ?_
  · exact reconcile_induction step spec' previous' (some value)
  · exact reconcile_induction step _ _ _
  · exact reconcile_induction step _ _ _
termination_by (sampleHeight sample, previousHeight previous, if spec.kindFor sample = .array then 1 else 0)
decreasing_by
  · have hlt := Json.height_lt_of_get? hvalue
    apply Prod.Lex.left
    simpa [hsample, sampleHeight, Json.height] using hlt
  · rcases Nat.lt_or_eq_of_le (sampleHeight_representative_le sample) with hlt | heq
    · exact Prod.Lex.left _ _ hlt
    · rw [heq, hitem]
      exact Prod.Lex.right _ (Prod.Lex.left _ _ (previousHeight_template_lt item))
  · rcases Nat.lt_or_eq_of_le (sampleHeight_representative_le sample) with hlt | heq
    · exact Prod.Lex.left _ _ hlt
    · rw [heq]
      apply Prod.Lex.right
      cases previous with
      | some item => exact Prod.Lex.left _ _ (Nat.succ_pos _)
      | none =>
        apply Prod.Lex.right
        have hcost := buildCost_template_lt (hkind rfl)
        rw [buildCost, buildCost, heq] at hcost
        exact Nat.lt_of_add_lt_add_left hcost

end Item
end FormSchema
