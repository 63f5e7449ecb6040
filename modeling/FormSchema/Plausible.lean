import FormSchema.Json.Basic

namespace FormSchema.Json

mutual
/-- A later value for the same key. Two objects merge, anything else is replaced, but an empty value
never replaces one that is not. -/
def mergeValue (existing : Option Json) (incoming : Json) : Json :=
  match incoming, existing with
  | .object entries, some (.object fields) => .object (mergeEntries fields entries)
  | _, some value => if incoming.isEmpty && !value.isEmpty then value else incoming
  | _, none => incoming
termination_by structural incoming

def mergeEntries (fields : List (String × Json)) (incoming : List (String × Json)) :
    List (String × Json) :=
  match incoming with
  | [] => fields
  | (key, value) :: rest =>
    mergeEntries
      (OrderedMap.insert fields key (mergeValue (OrderedMap.get? fields key) value)) rest
termination_by structural incoming
end

/-- The merged entries of the object elements, from left to right. -/
def plausibleObject (items : List Json) : OrderedMap Json :=
  items.foldl (fun merged item => match item with
    | .object entries => mergeEntries merged entries
    | _ => merged) []

private theorem entriesHeight_insert_le (fields : OrderedMap Json) (key : String) (value : Json) :
    entriesHeight (OrderedMap.insert fields key value) ≤
      max (entriesHeight fields) (value.height + 1) := by
  induction fields with
  | nil => simp [OrderedMap.insert, entriesHeight]
  | cons entry rest ih =>
    obtain ⟨first, present⟩ := entry
    simp only [OrderedMap.insert]
    split <;> simp only [entriesHeight] <;> omega

theorem height_lt_of_get? {fields : OrderedMap Json} {key : String} {value : Json}
    (h : OrderedMap.get? fields key = some value) : value.height < entriesHeight fields := by
  simpa only [height] using height_lt_of_entry_mem (OrderedMap.mem_of_get?_eq_some h)

mutual
theorem height_mergeValue_le (existing : Option Json) (incoming : Json) :
    (mergeValue existing incoming).height ≤
      max ((existing.map height).getD 0) incoming.height := by
  match incoming, existing with
  | .object entries, some (.object fields) =>
    simpa [mergeValue, height] using entriesHeight_mergeEntries_le fields entries
  | incoming, none => cases incoming <;> simp [mergeValue]
  | .null, some value | .bool _, some value | .int _, some value | .double _, some value
  | .string _, some value | .array _, some value =>
    simp only [mergeValue]
    split <;> simp only [Option.map_some, Option.getD_some] <;> omega
  | .object entries, some .null | .object entries, some (.bool _) | .object entries, some (.int _)
  | .object entries, some (.double _) | .object entries, some (.string _)
  | .object entries, some (.array _) =>
    simp only [mergeValue]
    split <;> simp only [Option.map_some, Option.getD_some] <;> omega

private theorem entriesHeight_mergeEntries_le (fields incoming : List (String × Json)) :
    entriesHeight (mergeEntries fields incoming) ≤
      max (entriesHeight fields) (entriesHeight incoming) := by
  match incoming with
  | [] => simpa only [mergeEntries] using Nat.le_max_left ..
  | (key, value) :: rest =>
    simp only [mergeEntries]
    have hrest := entriesHeight_mergeEntries_le
      (OrderedMap.insert fields key (mergeValue (OrderedMap.get? fields key) value)) rest
    have hvalue := height_mergeValue_le (OrderedMap.get? fields key) value
    have hinsert := entriesHeight_insert_le fields key
      (mergeValue (OrderedMap.get? fields key) value)
    have hexisting : ((OrderedMap.get? fields key).map height).getD 0 + 1 ≤
        max (entriesHeight fields) 1 := by
      cases h : OrderedMap.get? fields key with
      | none => exact Nat.le_max_right ..
      | some found => have := height_lt_of_get? h; simp; omega
    simp only [entriesHeight]
    omega
end

/-- The plausible object of an array nests less deep than the array. -/
theorem entriesHeight_plausibleObject_le (items : List Json) :
    entriesHeight (plausibleObject items) ≤ itemsHeight items - 1 := by
  suffices h : ∀ merged : OrderedMap Json,
      entriesHeight (items.foldl (fun merged item => match item with
        | .object entries => mergeEntries merged entries
        | _ => merged) merged) ≤ max (entriesHeight merged) (itemsHeight items - 1) by
    simpa [plausibleObject, entriesHeight] using h []
  induction items with
  | nil => intro merged; simp [itemsHeight]
  | cons item rest ih =>
    intro merged
    rw [List.foldl_cons]
    refine Nat.le_trans (ih _) ?_
    cases item with
    | object entries =>
      have := entriesHeight_mergeEntries_le merged entries
      simp only [itemsHeight, height]
      omega
    | _ => simp only [itemsHeight]; omega

end FormSchema.Json
