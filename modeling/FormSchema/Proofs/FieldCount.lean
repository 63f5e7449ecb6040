import FormSchema.Proofs.Computed
import Mathlib.Algebra.GroupWithZero.Nat

/-!
The count that a field limit is compared with, and the fields that a parse generates. The count never
falls short, so no sample within the limit gets more fields than that. It goes too far where an array
becomes a choice: what lies in such an array is counted, but there are no fields for it.
-/
namespace FormSchema

namespace Item

mutual
/-- The number of fields below an item. The template of an array is not one itself. -/
def fieldCount : Item → Nat
  | { children, .. } => levelFieldCount children
termination_by structural item => item

def levelFieldCount : List (String × Item) → Nat
  | [] => 0
  | (identifier, item) :: rest =>
    (if identifier = Identifier.arrayItem then 0 else 1) + item.fieldCount + levelFieldCount rest
termination_by structural level => level
end

private theorem fieldCount_eq (item : Item) : item.fieldCount = levelFieldCount item.children := by
  cases item
  rfl

private theorem fieldCount_movedTo (item : Item) (n : Int) : (item.movedTo n).fieldCount = item.fieldCount := by
  rw [fieldCount_eq, fieldCount_eq]
  rfl

private theorem levelFieldCount_placed (level : Schema) (new : List String) :
    levelFieldCount (level.placed new) = levelFieldCount level := by
  obtain ⟨place, heq⟩ := Schema.placed_eq_map_movedTo level new
  rw [heq]
  clear heq
  induction level with
  | nil => rfl
  | cons entry rest ih => simp only [List.map_cons, levelFieldCount, fieldCount_movedTo, ih]

private theorem levelFieldCount_addedFields_cons (ctx : Context) (path : String) (taken : List String) (key : String)
    (value : Json) (rest : List (String × Json)) :
    levelFieldCount (addedFields ctx path taken ((key, value) :: rest)) =
      1 + (build ctx (.field key (Identifier.ofKey key taken) path) (some value)).fieldCount +
        levelFieldCount (addedFields ctx path (taken ++ [Identifier.ofKey key taken]) rest) := by
  have hname : Identifier.ofKey key taken ≠ Identifier.arrayItem := by
    intro hreserved
    exact Identifier.ofKey_notReserved key taken (hreserved ▸ List.mem_cons_self)
  rw [addedFields, levelFieldCount, if_neg hname]

/-- The fields of an object are those of its entries. -/
theorem fieldCount_build_object {ctx : Context} {spec : ItemSpec} {entries : OrderedMap Json}
    (h : spec.kindFor (some (.object entries)) = .object) :
    (build ctx spec (some (.object entries))).fieldCount =
      levelFieldCount (addedFields ctx spec.sourcePath [] entries) := by
  have hbuilt := build_builtFrom ctx spec (some (.object entries))
  rw [fieldCount_eq, hbuilt.children, hbuilt.kind_of_none, h, childrenFor_object, reconcileLevel_nil,
    levelFieldCount_placed, foldl_addField]
  rfl

/-- The fields of an array are those of its template. -/
theorem fieldCount_build_array {ctx : Context} {spec : ItemSpec} {sample : Option Json}
    (h : spec.kindFor sample = .array) : (build ctx spec sample).fieldCount =
      (build ctx.enterArray (.template spec.sourcePath) (representative sample)).fieldCount := by
  have hbuilt := build_builtFrom ctx spec sample
  rw [fieldCount_eq, hbuilt.children, hbuilt.kind_of_none, h, childrenFor_array, templateLevel_eq,
    OrderedMap.get?, reconcile_none, levelFieldCount, if_pos rfl, fieldCount_movedTo, levelFieldCount]
  omega

/-- Nothing else has fields. -/
theorem fieldCount_build_leaf {ctx : Context} {spec : ItemSpec} {sample : Option Json}
    (harray : spec.kindFor sample ≠ .array) (hobject : ∀ entries, sample ≠ some (.object entries)) :
    (build ctx spec sample).fieldCount = 0 := by
  have hbuilt := build_builtFrom ctx spec sample
  rw [fieldCount_eq, hbuilt.children, hbuilt.kind_of_none, childrenFor_other harray fun _ => hobject]
  rfl

end Item

/-- Only an array is shown as one: an empty one, or one that starts with an object. -/
private theorem exists_items_of_infer_array {sample : Option Json} (h : FieldType.infer sample = .array) :
    ∃ items, sample = some (.array items) ∧
      (items = [] ∨ elementType (some (.array items)) = some .object) := by
  match sample with
  | some (.array []) => exact ⟨[], rfl, .inl rfl⟩
  | some (.array (first :: rest)) =>
    refine ⟨first :: rest, rfl, .inr ?_⟩
    rw [FieldType.infer] at h
    split at h
    · rename_i hnone
      cases hnone
    · assumption
    · cases h
  | some (.string text) =>
    rw [FieldType.infer, FieldType.ofText] at h
    split at h
    · cases h
    · split at h <;> cases h
  | none | some .null | some (.bool _) | some (.int _) | some (.double _) | some (.object _) => cases h

namespace Json

/-- The objects of an array that starts with one merge into an object that nests less deep. -/
private theorem height_plausibleObject_lt {items : List Json} (h : elementType (some (.array items)) = some .object) :
    (Json.object (plausibleObject items)).height < (Json.array items).height := by
  cases items with
  | nil => cases h
  | cons first rest =>
    have hfirst := height_lt_of_mem (List.mem_cons_self (a := first) (l := rest))
    have hmerged := entriesHeight_plausibleObject_le (first :: rest)
    simp only [height] at hfirst ⊢
    omega

/-- How many fields are counted that there are none for: all those counted in an array that does not
start with an object, wherever building comes to it. -/
def overcount : Json → Nat
  | .object entries => (entries.map fun entry => overcount entry.2).sum
  | .array items =>
    if elementType (some (.array items)) = some .object then overcount (.object (plausibleObject items))
    else countFields (.array items)
  | _ => 0
termination_by value => value.height
decreasing_by
  · exact height_lt_of_entry_mem ‹_›
  · exact height_plausibleObject_lt ‹_›

private theorem overcount_object_cons (key : String) (value : Json) (rest : List (String × Json)) :
    overcount (.object ((key, value) :: rest)) = value.overcount + overcount (.object rest) := by
  rw [overcount, overcount, List.map_cons, List.sum_cons]

end Json

private theorem countFields_object_cons (key : String) (value : Json) (rest : List (String × Json)) :
    countFields (.object ((key, value) :: rest)) = 1 + countFields value + countFields (.object rest) := by
  have hfold : ∀ (entries : List (String × Json)) (n : Nat),
      entries.foldl (fun n entry => n + 1 + countFields entry.2) n = n + countFields (.object entries) := by
    intro entries
    induction entries with
    | nil => intro n; simp [countFields]
    | cons entry rest ih =>
      intro n
      rw [countFields, List.foldl_cons, List.foldl_cons, ih, ih (0 + 1 + _)]
      omega
  rw [countFields, List.foldl_cons, hfold, Nat.zero_add]

private theorem countFields_array_of_objects {items : List Json}
    (h : elementType (some (.array items)) = some .object) :
    countFields (.array items) = countFields (.object (Json.plausibleObject items)) := by
  match items with
  | .object entries :: rest =>
    have hany : (Json.object entries :: rest).any Json.isObject = true := rfl
    conv_lhs => rw [countFields, if_pos hany]

namespace Item

/-- There are no fields for an array that does not start with an object. -/
private theorem fieldCount_build_of_choices {ctx : Context} {spec : ItemSpec} {items : List Json}
    (hspec : spec.kindFor (some (.array items)) = FieldType.infer (some (.array items)))
    (h : elementType (some (.array items)) ≠ some .object) :
    (build ctx spec (some (.array items))).fieldCount = 0 := by
  by_cases harray : spec.kindFor (some (.array items)) = .array
  · obtain ⟨_, heq, hempty | hobjects⟩ := exists_items_of_infer_array (hspec.symm.trans harray)
    · obtain rfl := hempty
      obtain rfl : items = [] := Json.array.inj (Option.some.inj heq)
      rw [fieldCount_build_array harray, show representative (some (.array [])) = none from rfl]
      exact fieldCount_build_leaf (fun hnone => nomatch hnone) (by simp)
    · cases heq
      exact absurd hobjects h
  · exact fieldCount_build_leaf harray (by simp)

/-- The entries of an object get a field each, and the fields below. -/
private theorem countFields_object_eq {ctx : Context} {path : String} {entries : List (String × Json)}
    (h : ∀ key value, (key, value) ∈ entries → ∀ identifier, countFields value =
      (build ctx (.field key identifier path) (some value)).fieldCount + value.overcount) (taken : List String) :
    countFields (.object entries) =
      levelFieldCount (addedFields ctx path taken entries) + Json.overcount (.object entries) := by
  induction entries generalizing taken with
  | nil => simp [countFields, addedFields, levelFieldCount, Json.overcount]
  | cons entry rest ih =>
    obtain ⟨key, value⟩ := entry
    have hvalue := h key value List.mem_cons_self (Identifier.ofKey key taken)
    have hrest := ih (fun key value hmem => h key value (List.mem_cons_of_mem _ hmem))
      (taken ++ [Identifier.ofKey key taken])
    rw [countFields_object_cons, levelFieldCount_addedFields_cons, Json.overcount_object_cons]
    omega

/-- What is counted in a value are the fields below its item, and what is counted too much. -/
theorem countFields_eq (value : Json) (ctx : Context) {spec : ItemSpec}
    (hspec : spec.kindFor (some value) = FieldType.infer (some value)) :
    countFields value = (build ctx spec (some value)).fieldCount + value.overcount := by
  match value with
  | .object entries =>
    rw [fieldCount_build_object hspec]
    apply countFields_object_eq
    intro key value hmem identifier
    exact countFields_eq value ctx rfl
  | .array items =>
    by_cases hobjects : elementType (some (.array items)) = some .object
    · have hkind : spec.kindFor (some (.array items)) = .array := by
        rw [hspec, FieldType.infer, hobjects]
      have htemplate : (ItemSpec.template spec.sourcePath).kindFor (some (.object (Json.plausibleObject items))) =
          FieldType.infer (some (.object (Json.plausibleObject items))) := rfl
      have hbelow := countFields_eq (.object (Json.plausibleObject items)) ctx.enterArray htemplate
      rw [countFields_array_of_objects hobjects, fieldCount_build_array hkind, representative, if_pos hobjects,
        Json.overcount, if_pos hobjects]
      exact hbelow
    · rw [Json.overcount, if_neg hobjects, fieldCount_build_of_choices hspec hobjects, Nat.zero_add]
  | .null | .bool _ | .int _ | .double _ | .string _ =>
    have harray : spec.kindFor _ ≠ .array := fun hkind => by
      obtain ⟨items, hitems, -⟩ := exists_items_of_infer_array (hspec.symm.trans hkind)
      cases hitems
    rw [fieldCount_build_leaf harray (by simp)]
    simp [countFields, Json.overcount]
termination_by value.height
decreasing_by
  · exact Json.height_lt_of_entry_mem hmem
  · exact Json.height_plausibleObject_lt hobjects

end Item

namespace Schema

/-- The first sample of a form: unless it has no entries, its schema is built, or it has too many fields. -/
theorem compute_nil (widget : String) (fieldLimit : Nat) {entries : OrderedMap Json} (h : entries ≠ [])
    (paths : List String) : compute widget fieldLimit (some (.object entries)) [] paths =
      if fieldLimit < countFields (.object entries) then .ok ⟨.limitExceeded, [], paths⟩
      else .ok ⟨.updated, parsed widget entries [], (parsed widget entries []).dynamicPaths paths⟩ := by
  have hnew : skips [] (some (.object entries)) = false := by
    obtain ⟨first, rest, rfl⟩ := List.exists_cons_of_ne_nil h
    rfl
  split
  · rename_i hmany
    exact compute_of_limit hnew hmany
  · rename_i hfew
    exact compute_of_object hnew (Nat.not_lt.mp hfew)

/-- The schema of a first sample. -/
theorem parsed_nil (widget : String) (entries : OrderedMap Json) : parsed widget entries [] =
    [(Identifier.root, (Item.build { widget } rootSpec (some (.object entries))).movedTo 0)] := by
  rw [parsed, root?, OrderedMap.get?, Item.reconcile_none]

private theorem countFields_eq_of_parsed_nil (widget : String) (entries : OrderedMap Json) :
    ∃ root, parsed widget entries [] = [(Identifier.root, root)] ∧
      countFields (.object entries) = root.fieldCount + Json.overcount (.object entries) := by
  refine ⟨_, parsed_nil widget entries, ?_⟩
  rw [Item.fieldCount_movedTo]
  exact Item.countFields_eq _ _ rfl

private theorem ne_nil_of_compute {widget : String} {fieldLimit : Nat} {entries : OrderedMap Json} {paths : List String}
    {computed : Computed} (h : compute widget fieldLimit (some (.object entries)) [] paths = .ok computed)
    (hstatus : computed.status ≠ .unchanged) : entries ≠ [] := by
  rintro rfl
  rw [← Except.ok.inj h] at hstatus
  exact hstatus rfl

/-- The field limit bounds what is generated: a first sample whose schema is built gets no more fields than
are counted in it, and so no more than the limit. -/
theorem compute_updated_le {widget : String} {fieldLimit : Nat} {entries : OrderedMap Json} {paths : List String}
    {computed : Computed} (h : compute widget fieldLimit (some (.object entries)) [] paths = .ok computed)
    (hupdated : computed.status = .updated) : ∃ root, computed.schema = [(Identifier.root, root)] ∧
      root.fieldCount ≤ countFields (.object entries) ∧ countFields (.object entries) ≤ fieldLimit := by
  have hentries : entries ≠ [] := ne_nil_of_compute h (by simp [hupdated])
  obtain ⟨root, hroot, hcount⟩ := countFields_eq_of_parsed_nil widget entries
  rw [compute_nil widget fieldLimit hentries] at h
  split at h
  · rw [← Except.ok.inj h] at hupdated
    cases hupdated
  · refine ⟨root, ?_, by omega, by omega⟩
    rw [← Except.ok.inj h]
    exact hroot

/-- A first sample is refused only if it would get more fields than the limit, whatever the limit, exactly
if no field of it is counted that there is none for. -/
theorem compute_refuses_iff (widget : String) (entries : OrderedMap Json) (paths : List String) :
    (∀ fieldLimit computed, compute widget fieldLimit (some (.object entries)) [] paths = .ok computed →
      computed.status = .limitExceeded →
      ∃ root, parse widget (some (.object entries)) [] = .ok [(Identifier.root, root)] ∧
        fieldLimit < root.fieldCount) ↔
    Json.overcount (.object entries) = 0 := by
  obtain ⟨root, hroot, hcount⟩ := countFields_eq_of_parsed_nil widget entries
  rw [parse_object, hroot]
  constructor
  · intro h
    by_contra hover
    have hentries : entries ≠ [] := by
      rintro rfl
      exact hover (by simp [Json.overcount])
    have hrefused := compute_nil widget root.fieldCount hentries paths
    rw [if_pos (by omega)] at hrefused
    obtain ⟨_, ⟨⟩, hmore⟩ := h _ _ hrefused rfl
    exact absurd hmore (Nat.lt_irrefl _)
  · intro hexact fieldLimit computed hcomputed hstatus
    have hentries : entries ≠ [] := ne_nil_of_compute hcomputed (by simp [hstatus])
    rw [compute_nil widget fieldLimit hentries] at hcomputed
    split at hcomputed
    · exact ⟨root, rfl, by omega⟩
    · rw [← Except.ok.inj hcomputed] at hstatus
      cases hstatus

def mixedSample : OrderedMap Json :=
  [("rows", .array [.object [("a", .int 1)], .null, .object [("b", .object [("c", .bool true)])]]),
    ("tags", .array [.string "x", .array []]), ("none", .array [])]

theorem compute_updated_le_mixed : ∃ computed, compute "Form" 6 (some (.object mixedSample)) [] [] = .ok computed ∧
    computed.status = .updated ∧ ∃ root, computed.schema = [(Identifier.root, root)] ∧
      root.fieldCount ≤ countFields (.object mixedSample) ∧ countFields (.object mixedSample) ≤ 6 := by
  have hentries : mixedSample ≠ [] := by decide
  have hcomputed := compute_nil "Form" 6 hentries []
  rw [if_neg (by decide +kernel)] at hcomputed
  exact ⟨_, hcomputed, rfl, compute_updated_le hcomputed rfl⟩

/-- A choice of a number and an object: two fields are counted and only one would be generated. -/
theorem not_compute_refuses_choices :
    compute "Form" 1 (some (.object [("tags", .array [.int 1, .object [("a", .int 1)]])])) [] [] =
      .ok ⟨.limitExceeded, [], []⟩ ∧
    ∃ root, parse "Form" (some (.object [("tags", .array [.int 1, .object [("a", .int 1)]])])) [] =
      .ok [(Identifier.root, root)] ∧ root.fieldCount = 1 := by
  constructor
  · rw [compute_nil "Form" 1 (by simp), if_pos (by decide +kernel)]
  · refine ⟨_, (parse_object ..).trans (congrArg _ (parsed_nil ..)), ?_⟩
    decide +kernel

end Schema
end FormSchema
