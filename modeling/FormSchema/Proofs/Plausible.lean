import FormSchema.Proofs.EraseDups
import FormSchema.Proofs.Reordered

/-!
The plausible object, told key by key. Of the values of a key only those count that are not empty, as long
as there is one; they are combined from left to right, and two objects are combined by the same rules.
-/
namespace FormSchema.Json
open OrderedMap (keys Distinct)

def objectsOf (items : List Json) : List (OrderedMap Json) :=
  items.filterMap fun item => match item with
    | .object entries => some entries
    | _ => none

def valuesAt (key : String) (objects : List (OrderedMap Json)) : List Json :=
  objects.filterMap fun entries => OrderedMap.get? entries key

def unitedKeys (objects : List (OrderedMap Json)) : List String := (objects.flatMap keys).eraseDups

def nonEmpty (values : List Json) : List Json := values.filter fun value => !value.isEmpty

mutual
/-- Two values of a key become one: objects merge, anything else gives way to the later value. -/
inductive Combines : Json → Json → Json → Prop
  | objects {fields entries merged : OrderedMap Json} (h : Merges [fields, entries] merged) :
    Combines (.object fields) (.object entries) (.object merged)
  | replaced {earlier later : Json} (h : (later.isObject && earlier.isObject) = false) :
    Combines earlier later later

/-- A value is combined with later ones from left to right. -/
inductive CombinesAll : Json → List Json → Json → Prop
  | nil {value : Json} : CombinesAll value [] value
  | cons {first second combined result : Json} {rest : List Json} (h : Combines first second combined)
    (hrest : CombinesAll combined rest result) : CombinesAll first (second :: rest) result

/-- The values of a key become one: the last of them if all are empty, and else what those combine to that
are not. -/
inductive Settles : List Json → Json → Prop
  | empty {values : List Json} {last : Json} (h : nonEmpty values = []) (hlast : values.getLast? = some last) :
    Settles values last
  | populated {values rest : List Json} {first result : Json} (h : nonEmpty values = first :: rest)
    (hresult : CombinesAll first rest result) : Settles values result

/-- Some objects become one, with all their keys and the values of each key settled. -/
inductive Merges : List (OrderedMap Json) → OrderedMap Json → Prop
  | intro {objects : List (OrderedMap Json)} {merged : OrderedMap Json} (hkeys : keys merged = unitedKeys objects)
    (hvalues : ∀ key value, OrderedMap.get? merged key = some value → Settles (valuesAt key objects) value) :
    Merges objects merged
end

/-! ### Merging key by key -/

private theorem keys_mergeEntries {fields : OrderedMap Json} (h : Distinct fields) (incoming : OrderedMap Json) :
    keys (mergeEntries fields incoming) = (keys fields ++ keys incoming).eraseDups := by
  induction incoming generalizing fields with
  | nil => rw [mergeEntries, OrderedMap.keys_nil, List.append_nil, eraseDups_of_nodup h]
  | cons entry rest ih =>
    obtain ⟨key, value⟩ := entry
    have hinsert : keys (OrderedMap.insert fields key (mergeValue (OrderedMap.get? fields key) value)) =
        (keys fields ++ [key]).eraseDups := by
      rw [OrderedMap.keys_insert, eraseDups_concat, eraseDups_of_nodup h]
    rw [mergeEntries, ih (OrderedMap.distinct_insert h ..), hinsert, eraseDups_eraseDups_append, List.append_assoc]
    rfl

private theorem mem_keys_mergeEntries {fields : OrderedMap Json} (h : Distinct fields) {incoming : OrderedMap Json}
    {key : String} : key ∈ keys (mergeEntries fields incoming) ↔ key ∈ keys fields ∨ key ∈ keys incoming := by
  rw [keys_mergeEntries h, List.mem_eraseDups, List.mem_append]

/-- Nothing changes what is merged into nothing. -/
private theorem mergeEntries_nil {entries : OrderedMap Json} (h : Distinct entries) :
    mergeEntries [] entries = entries := by
  have hnone : Distinct ([] : OrderedMap Json) := List.nodup_nil
  apply h.ext
  · rw [keys_mergeEntries hnone, OrderedMap.keys_nil, List.nil_append, eraseDups_of_nodup h]
  · intro key value hvalue
    rw [get?_mergeEntries [] h] at hvalue
    cases hentry : OrderedMap.get? entries key with
    | none =>
      rw [hentry] at hvalue
      cases hvalue
    | some found =>
      simpa only [hentry, OrderedMap.get?, mergeValue_none] using hvalue

/-- Two values that are objects, or not. -/
private theorem objects_or_not (earlier later : Json) :
    (∃ fields entries, earlier = .object fields ∧ later = .object entries) ∨
      (later.isObject && earlier.isObject) = false := by
  cases hobjects : later.isObject && earlier.isObject with
  | false => exact .inr rfl
  | true =>
    obtain ⟨hlater, hearlier⟩ := Bool.and_eq_true_iff.mp hobjects
    obtain ⟨entries, rfl⟩ := exists_entries_of_isObject hlater
    obtain ⟨fields, rfl⟩ := exists_entries_of_isObject hearlier
    exact .inl ⟨fields, entries, rfl, rfl⟩

/-- An empty value gives way to any other. -/
private theorem mergeValue_of_existing_empty {existing : Option Json} (h : ∀ value ∈ existing, value.isEmpty = true)
    {incoming : Json} (hincoming : incoming.WellFormed) : mergeValue existing incoming = incoming := by
  cases existing with
  | none => exact mergeValue_none incoming
  | some value =>
    have hempty := h value rfl
    rcases objects_or_not value incoming with ⟨fields, entries, rfl, rfl⟩ | hobjects
    · obtain rfl : fields = [] := List.isEmpty_iff.mp hempty
      rw [mergeValue, mergeEntries_nil hincoming.1]
    · rw [mergeValue_of_not_objects hobjects, hempty]
      simp

/-- An empty value changes nothing but an empty one. -/
private theorem mergeValue_of_incoming_empty {value incoming : Json} (hvalue : value.isEmpty = false)
    (hincoming : incoming.isEmpty = true) : mergeValue (some value) incoming = value := by
  rcases objects_or_not value incoming with ⟨fields, entries, rfl, rfl⟩ | hobjects
  · obtain rfl : entries = [] := List.isEmpty_iff.mp hincoming
    rw [mergeValue, mergeEntries]
  · rw [mergeValue_of_not_objects hobjects, hincoming, hvalue]
    rfl

/-- A value that is not empty replaces any other that it does not merge with. -/
private theorem mergeValue_of_populated {value incoming : Json}
    (hobjects : (incoming.isObject && value.isObject) = false)
    (hincoming : incoming.isEmpty = false) : mergeValue (some value) incoming = incoming := by
  rw [mergeValue_of_not_objects hobjects, hincoming]
  rfl

def settle (values : List Json) : Option Json :=
  values.foldl (fun existing value => some (mergeValue existing value)) none

def mergeObjects (objects : List (OrderedMap Json)) : OrderedMap Json := objects.foldl mergeEntries []

private theorem plausibleObject_eq (items : List Json) : plausibleObject items = mergeObjects (objectsOf items) := by
  rw [plausibleObject, mergeObjects, objectsOf, List.foldl_filterMap]
  congr
  funext merged item
  cases item <;> rfl

private theorem distinct_mergeObjects (objects : List (OrderedMap Json)) : Distinct (mergeObjects objects) :=
  List.foldlRecOn objects mergeEntries List.nodup_nil fun _ h entries _ => distinct_mergeEntries h entries

private theorem mergeObjects_concat (objects : List (OrderedMap Json)) (entries : OrderedMap Json) :
    mergeObjects (objects ++ [entries]) = mergeEntries (mergeObjects objects) entries := by
  rw [mergeObjects, List.foldl_append]
  rfl

private theorem settle_concat (values : List Json) (value : Json) :
    settle (values ++ [value]) = some (mergeValue (settle values) value) := by
  rw [settle, List.foldl_append]
  rfl

private theorem keys_mergeObjects (objects : List (OrderedMap Json)) :
    keys (mergeObjects objects) = unitedKeys objects := by
  induction objects using List.reverseRecOn with
  | nil => rfl
  | append_singleton objects entries ih =>
    rw [mergeObjects_concat, keys_mergeEntries (distinct_mergeObjects objects), ih, unitedKeys, unitedKeys,
      eraseDups_eraseDups_append, List.flatMap_append, List.flatMap_singleton]

private theorem valuesAt_concat (key : String) (objects : List (OrderedMap Json)) (entries : OrderedMap Json) :
    valuesAt key (objects ++ [entries]) = valuesAt key objects ++ (OrderedMap.get? entries key).toList := by
  rw [valuesAt, List.filterMap_append]
  cases hvalue : OrderedMap.get? entries key <;> simp [valuesAt, hvalue]

private theorem get?_mergeObjects {objects : List (OrderedMap Json)} (h : ∀ entries ∈ objects, Distinct entries)
    (key : String) : OrderedMap.get? (mergeObjects objects) key = settle (valuesAt key objects) := by
  induction objects using List.reverseRecOn with
  | nil => rfl
  | append_singleton objects entries ih =>
    have hlast := h entries (by simp)
    have hobjects := ih fun fields hfields => h fields (List.mem_append_left _ hfields)
    rw [mergeObjects_concat, get?_mergeEntries _ hlast, valuesAt_concat, hobjects]
    cases OrderedMap.get? entries key with
    | none => rw [Option.toList_none, List.append_nil]
    | some value => rw [Option.toList_some, settle_concat]

/-! ### Empty values do not count -/

/-- A value that is not empty, of less than some height. -/
structure Populated (bound : Nat) (value : Json) : Prop where
  wellFormed : value.WellFormed
  height : value.height < bound
  isEmpty : value.isEmpty = false

def combineAll (first : Json) (rest : List Json) : Json :=
  rest.foldl (fun earlier later => mergeValue (some earlier) later) first

section Settle
variable {bound : Nat}

theorem Populated.mergeValue {earlier later : Json} (hearlier : Populated bound earlier)
    (hlater : Populated bound later) : Populated bound (Json.mergeValue (some earlier) later) := by
  refine ⟨?_, ?_, ?_⟩
  · rw [wellFormed_iff]
    apply everywhere_mergeValue mergeable_keysDistinct
    · intro value hvalue
      obtain rfl := Option.some.inj hvalue
      exact (wellFormed_iff _).mp hearlier.wellFormed
    · exact (wellFormed_iff _).mp hlater.wellFormed
  · have hheight := height_mergeValue_le (some earlier) later
    have := hearlier.height
    have := hlater.height
    rw [Option.map_some, Option.getD_some] at hheight
    omega
  · rcases objects_or_not earlier later with ⟨fields, entries, rfl, rfl⟩ | hobjects
    · obtain ⟨entry, hentry⟩ := List.exists_mem_of_ne_nil entries fun hnil => by
        rw [hnil] at hlater
        cases hlater.isEmpty
      have hkey := (mem_keys_mergeEntries hearlier.wellFormed.1).mpr (.inr (OrderedMap.mem_keys_of_mem hentry))
      rw [Json.mergeValue, Json.isEmpty, List.isEmpty_eq_false_iff]
      intro hnil
      rw [hnil] at hkey
      cases hkey
    · rw [mergeValue_of_populated hobjects hlater.isEmpty]
      exact hlater.isEmpty

private theorem Populated.combineAll {first : Json} (hfirst : Populated bound first) {rest : List Json}
    (hrest : ∀ value ∈ rest, Populated bound value) : Populated bound (Json.combineAll first rest) :=
  List.foldlRecOn rest _ hfirst fun _ h value hvalue => h.mergeValue (hrest value hvalue)

private theorem nonEmpty_concat (values : List Json) (value : Json) :
    nonEmpty (values ++ [value]) = if value.isEmpty then nonEmpty values else nonEmpty values ++ [value] := by
  rw [nonEmpty, List.filter_append]
  cases hisEmpty : value.isEmpty <;> simp [hisEmpty, nonEmpty]

/-- The history of a key: the last value stands while all are empty, and from then on the others alone count. -/
theorem settle_cases {values : List Json} (h : ∀ value ∈ values, value.WellFormed ∧ value.height < bound) :
    (nonEmpty values = [] ∧ settle values = values.getLast?) ∨
      ∃ first rest, nonEmpty values = first :: rest ∧ Populated bound first ∧
        (∀ value ∈ rest, Populated bound value) ∧ settle values = some (combineAll first rest) := by
  induction values using List.reverseRecOn with
  | nil => exact .inl ⟨rfl, rfl⟩
  | append_singleton values last ih =>
    obtain ⟨hwell, hheight⟩ := h last (by simp)
    rw [nonEmpty_concat, settle_concat]
    rcases ih fun value hvalue => h value (List.mem_append_left _ hvalue) with
      ⟨hnone, hsettle⟩ | ⟨first, rest, hsome, hfirst, hrest, hsettle⟩
    · -- Nothing but empty values so far: the last one takes their place.
      have hempty : ∀ value ∈ values.getLast?, value.isEmpty = true := by
        intro value hvalue
        simpa using List.filter_eq_nil_iff.mp hnone value (List.mem_of_getLast? hvalue)
      rw [hsettle, mergeValue_of_existing_empty hempty hwell, hnone, List.getLast?_concat]
      cases hisEmpty : last.isEmpty with
      | true => exact .inl ⟨rfl, rfl⟩
      | false => exact .inr ⟨last, [], rfl, ⟨hwell, hheight, hisEmpty⟩, by simp, rfl⟩
    · rw [hsettle, hsome]
      cases hisEmpty : last.isEmpty with
      | true =>
        rw [mergeValue_of_incoming_empty (hfirst.combineAll hrest).isEmpty hisEmpty]
        exact .inr ⟨first, rest, rfl, hfirst, hrest, rfl⟩
      | false =>
        refine .inr ⟨first, rest ++ [last], rfl, hfirst, ?_, ?_⟩
        · rw [List.forall_mem_append, List.forall_mem_singleton]
          exact ⟨hrest, hwell, hheight, hisEmpty⟩
        · rw [combineAll, combineAll, List.foldl_append]
          rfl

/-- A key with a value that is not empty gets such a value. -/
private theorem exists_settle_of_populated {values : List Json}
    (h : ∀ value ∈ values, value.WellFormed ∧ value.height < bound)
    {populated : Json} (hmem : populated ∈ values) (hisEmpty : populated.isEmpty = false) :
    ∃ value, settle values = some value ∧ value.isEmpty = false := by
  rcases settle_cases h with ⟨hnone, -⟩ | ⟨first, rest, -, hfirst, hrest, hsettle⟩
  · have hempty := List.filter_eq_nil_iff.mp hnone populated hmem
    rw [hisEmpty] at hempty
    cases hempty rfl
  · exact ⟨_, hsettle, (hfirst.combineAll hrest).isEmpty⟩

end Settle

/-! ### The rules determine the plausible object -/

section Rules
variable {bound : Nat}

def CombinesBelow (bound : Nat) : Prop :=
  ∀ earlier later, Populated bound earlier → Populated bound later →
    ∀ combined, Combines earlier later combined ↔ combined = mergeValue (some earlier) later

private theorem CombinesBelow.all_iff (h : CombinesBelow bound) {first : Json} (hfirst : Populated bound first)
    {rest : List Json} (hrest : ∀ value ∈ rest, Populated bound value) (result : Json) :
    CombinesAll first rest result ↔ result = combineAll first rest := by
  induction rest generalizing first with
  | nil =>
    constructor
    · rintro ⟨⟩
      rfl
    · rintro rfl
      exact .nil
  | cons second rest ih =>
    obtain ⟨hsecond, hbehind⟩ := List.forall_mem_cons.mp hrest
    have hstep := h first second hfirst hsecond
    have hcombined := ih (hfirst.mergeValue hsecond) hbehind
    constructor
    · rintro (_ | ⟨hone, hall⟩)
      rw [(hstep _).mp hone] at hall
      exact hcombined.mp hall
    · intro hresult
      exact .cons ((hstep _).mpr rfl) (hcombined.mpr hresult)

private theorem CombinesBelow.settles_iff (h : CombinesBelow bound) {values : List Json}
    (hvalues : ∀ value ∈ values, value.WellFormed ∧ value.height < bound) (result : Json) :
    Settles values result ↔ settle values = some result := by
  rcases settle_cases hvalues with ⟨hnone, hsettle⟩ | ⟨first, rest, hsome, hfirst, hrest, hsettle⟩
  · rw [hsettle]
    constructor
    · rintro (⟨-, hlast⟩ | ⟨hcons, -⟩)
      · exact hlast
      · rw [hnone] at hcons
        cases hcons
    · exact .empty hnone
  · rw [hsettle, Option.some_inj, eq_comm]
    constructor
    · rintro (⟨hnil, -⟩ | ⟨hcons, hresult⟩)
      · rw [hsome] at hnil
        cases hnil
      · rw [hsome] at hcons
        obtain ⟨rfl, rfl⟩ := List.cons.inj hcons
        exact (h.all_iff hfirst hrest result).mp hresult
    · intro hresult
      exact .populated hsome ((h.all_iff hfirst hrest result).mpr hresult)

/-- The values of some objects lie below them. -/
private theorem forall_mem_valuesAt {objects : List (OrderedMap Json)}
    (h : ∀ entries ∈ objects, (Json.object entries).WellFormed ∧ (Json.object entries).height ≤ bound)
    (key : String) : ∀ value ∈ valuesAt key objects, value.WellFormed ∧ value.height < bound := by
  intro value hvalue
  obtain ⟨entries, hentries, hget⟩ := List.mem_filterMap.mp hvalue
  obtain ⟨hwell, hheight⟩ := h entries hentries
  refine ⟨(wellFormed_iff _).mpr (Everywhere.get? ((wellFormed_iff _).mp hwell) hget), ?_⟩
  exact Nat.lt_of_lt_of_le (height_lt_of_get? hget) hheight

private theorem CombinesBelow.merges_iff (h : CombinesBelow bound) {objects : List (OrderedMap Json)}
    (hobjects : ∀ entries ∈ objects, (Json.object entries).WellFormed ∧ (Json.object entries).height ≤ bound)
    (merged : OrderedMap Json) : Merges objects merged ↔ merged = mergeObjects objects := by
  have hget := get?_mergeObjects fun entries hentries => (hobjects entries hentries).1.1
  have hsettles := fun key => h.settles_iff (forall_mem_valuesAt hobjects key)
  constructor
  · rintro ⟨hkeys, hvalues⟩
    apply (distinct_mergeObjects objects).ext
    · rw [hkeys, keys_mergeObjects]
    · intro key value hvalue
      rw [hget]
      exact (hsettles key value).mp (hvalues key value hvalue)
  · rintro rfl
    refine .intro (keys_mergeObjects objects) fun key value hvalue => ?_
    rw [hget] at hvalue
    exact (hsettles key value).mpr hvalue

/-- By induction on the height: two objects are merged by the rules because their values are. -/
private theorem combinesBelow (bound : Nat) : CombinesBelow bound := by
  induction bound with
  | zero => exact fun _ _ hearlier => absurd hearlier.height (Nat.not_lt_zero _)
  | succ bound ih =>
    intro earlier later hearlier hlater combined
    rcases objects_or_not earlier later with ⟨fields, entries, rfl, rfl⟩ | hobjects
    · have hboth : ∀ object ∈ [fields, entries],
          (Json.object object).WellFormed ∧ (Json.object object).height ≤ bound := by
        simp only [List.forall_mem_cons]
        exact ⟨⟨hearlier.wellFormed, Nat.le_of_lt_succ hearlier.height⟩,
          ⟨hlater.wellFormed, Nat.le_of_lt_succ hlater.height⟩, by simp⟩
      have hmerged : mergeObjects [fields, entries] = mergeEntries fields entries := by
        show mergeEntries (mergeEntries [] fields) entries = _
        rw [mergeEntries_nil hearlier.wellFormed.1]
      have hmerges := ih.merges_iff hboth
      rw [hmerged] at hmerges
      rw [mergeValue]
      constructor
      · rintro (hrules | hne)
        · rw [(hmerges _).mp hrules]
        · cases hne
      · rintro rfl
        exact .objects ((hmerges _).mpr rfl)
    · rw [mergeValue_of_populated hobjects hlater.isEmpty]
      constructor
      · rintro (_ | _)
        · cases hobjects
        · rfl
      · rintro rfl
        exact .replaced hobjects

end Rules

private theorem mergeEntries_self {entries : OrderedMap Json} (h : Distinct entries)
    (hvalues : ∀ key value, OrderedMap.get? entries key = some value → mergeValue (some value) value = value) :
    mergeEntries entries entries = entries := by
  apply h.ext
  · rw [keys_mergeEntries h, eraseDups_append_of_forall_mem fun _ hkey => hkey, eraseDups_of_nodup h]
  · intro key found hfound
    rw [get?_mergeEntries entries h] at hfound
    cases hvalue : OrderedMap.get? entries key with
    | none =>
      rw [hvalue] at hfound
      cases hfound
    | some value => simpa only [hvalue, hvalues key value hvalue] using hfound

/-- A value merged with itself stays. -/
private theorem mergeValue_self (value : Json) (h : value.WellFormed) : mergeValue (some value) value = value := by
  match value with
  | .object entries =>
    rw [mergeValue, mergeEntries_self h.1]
    intro key found hfound
    exact mergeValue_self found ((wellFormed_iff _).mpr (Everywhere.get? ((wellFormed_iff _).mp h) hfound))
  | .null | .bool _ | .int _ | .double _ | .string _ | .array _ =>
    rw [mergeValue_of_not_objects rfl]
    split <;> rfl
termination_by value.height
decreasing_by simpa only [height] using height_lt_of_get? hfound

private theorem forall_mem_objectsOf {items : List Json} (h : (Json.array items).WellFormed) :
    ∀ entries ∈ objectsOf items,
      (Json.object entries).WellFormed ∧ (Json.object entries).height ≤ (Json.array items).height := by
  intro entries hentries
  obtain ⟨item, hitem, hobject⟩ := List.mem_filterMap.mp hentries
  cases item with
  | object fields =>
    obtain rfl := Option.some.inj hobject
    refine ⟨(wellFormed_iff _).mpr ((itemsWellFormed_iff items).mp h _ hitem), ?_⟩
    exact Nat.le_of_lt (height_lt_of_mem hitem)
  | _ => cases hobject

/-- The plausible object as one more element changes nothing. -/
theorem plausibleObject_append_self {items : List Json} (h : (Json.array items).WellFormed) :
    plausibleObject (items ++ [.object (plausibleObject items)]) = plausibleObject items := by
  have hwell : (Json.object (plausibleObject items)).WellFormed :=
    (wellFormed_iff _).mpr (everywhere_plausibleObject mergeable_keysDistinct ((itemsWellFormed_iff items).mp h))
  have hself := mergeValue_self _ hwell
  have hlast : objectsOf (items ++ [.object (plausibleObject items)]) =
      objectsOf items ++ [plausibleObject items] := by
    rw [objectsOf, List.filterMap_append]
    rfl
  rw [mergeValue] at hself
  rw [plausibleObject_eq (items ++ _), hlast, mergeObjects_concat, ← plausibleObject_eq]
  exact Json.object.inj hself

/-- The plausible object is the one that the rules of merging make of the objects in an array. A key with a
value that is not empty gets such a value, and the object as one more element changes nothing. -/
theorem plausibleObject_merges {items : List Json} (h : (Json.array items).WellFormed) :
    (∀ merged, Merges (objectsOf items) merged ↔ merged = plausibleObject items) ∧
    (∀ key, (∃ value ∈ valuesAt key (objectsOf items), value.isEmpty = false) →
      ∃ value, OrderedMap.get? (plausibleObject items) key = some value ∧ value.isEmpty = false) ∧
    plausibleObject (items ++ [.object (plausibleObject items)]) = plausibleObject items := by
  have hobjects := forall_mem_objectsOf h
  refine ⟨?_, ?_, plausibleObject_append_self h⟩
  · rw [plausibleObject_eq]
    exact (combinesBelow _).merges_iff hobjects
  · rintro key ⟨value, hvalue, hisEmpty⟩
    rw [plausibleObject_eq, get?_mergeObjects fun entries hentries => (hobjects entries hentries).1.1]
    exact exists_settle_of_populated (forall_mem_valuesAt hobjects key) hvalue hisEmpty

def sparseRows : List Json :=
  [.object [("a", .null), ("b", .object [("x", .int 1)]), ("d", .object [("p", .int 1)])], .int 5,
    .object [("b", .object []), ("a", .array [.int 1]), ("d", .string "p")],
    .object [("b", .object [("x", .null), ("y", .int 2)]), ("d", .object [("q", .null)])],
    .object [("c", .null), ("b", .array []), ("a", .null)], .object [("c", .object [])]]

theorem plausibleObject_merges_sparse : (Json.array sparseRows).WellFormed ∧
    plausibleObject sparseRows = [("a", .array [.int 1]), ("b", .object [("x", .int 1), ("y", .int 2)]),
      ("d", .object [("q", .null)]), ("c", .object [])] ∧
    Merges (objectsOf sparseRows) (plausibleObject sparseRows) ∧
    (∃ value ∈ valuesAt "b" (objectsOf sparseRows), value.isEmpty = false) ∧
    (∃ value, OrderedMap.get? (plausibleObject sparseRows) "b" = some value ∧ value.isEmpty = false) ∧
    plausibleObject (sparseRows ++ [.object (plausibleObject sparseRows)]) = plausibleObject sparseRows := by
  have hwell : (Json.array sparseRows).WellFormed := by
    simp [sparseRows, Json.WellFormed, ItemsWellFormed, EntriesWellFormed, Distinct, keys]
  have hvalue : ∃ value ∈ valuesAt "b" (objectsOf sparseRows), value.isEmpty = false :=
    ⟨.object [("x", .int 1)], by simp [sparseRows, objectsOf, valuesAt, OrderedMap.get?], rfl⟩
  obtain ⟨hrules, hpopulated, hagain⟩ := plausibleObject_merges hwell
  exact ⟨hwell, rfl, (hrules _).mpr rfl, hvalue, hpopulated "b" hvalue, hagain⟩

end FormSchema.Json
