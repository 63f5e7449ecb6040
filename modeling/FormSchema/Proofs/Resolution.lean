import FormSchema.Proofs.BoundRun

namespace FormSchema

def Json.valueAt : Json → List String → Option Json
  | value, [] => some value
  | .object entries, key :: rest => (OrderedMap.get? entries key).bind fun value => value.valueAt rest
  | _, _ :: _ => none

private theorem Json.valueAt_cons {entries : OrderedMap Json} {key : String} {value : Json}
    (h : OrderedMap.get? entries key = some value) (rest : List String) :
    (Json.object entries).valueAt (key :: rest) = value.valueAt rest := by
  rw [valueAt, h]
  rfl

namespace Schema

/-- The keys of the sample that the items on the way stand for. -/
def sampleKeysAlong (level : Schema) : List String → List String
  | [] => []
  | identifier :: rest =>
    match OrderedMap.get? level identifier with
    | some item => item.sampleKey :: sampleKeysAlong item.children rest
    | none => []

/-- The keys that lead from the sample to the value of an item. The root stands for the whole sample. -/
def sourceKeys (schema : Schema) : List String → List String
  | [] => []
  | first :: rest =>
    match OrderedMap.get? schema first with
    | some root => sampleKeysAlong root.children rest
    | none => []

private theorem Sound.isWord_of_find? {owner : Option FieldType} {level : Schema} (h : level.Sound owner)
    {identifiers : List String} {item : Item} (hitem : level.find? identifiers = some item) :
    ∀ identifier ∈ identifiers, Identifier.IsWord identifier := by
  induction identifiers generalizing owner level with
  | nil => simp
  | cons identifier rest ih =>
    have hword : ∀ found, OrderedMap.get? level identifier = some found → Identifier.IsWord identifier :=
      fun found hfound => h.regular.words _ (OrderedMap.mem_keys_of_mem (OrderedMap.mem_of_get?_eq_some hfound))
    cases rest with
    | nil => exact List.forall_mem_singleton.mpr (hword item hitem)
    | cons next rest =>
      obtain ⟨parent, hparent, hbelow⟩ := exists_parent_of_find? hitem
      exact List.forall_mem_cons.mpr ⟨hword parent hparent, ih (below (h.of_get? hparent).1) hbelow⟩

end Schema

namespace Item

/-- The child of a settled item over an object, unless it is a template, records the value of its key. -/
theorem Settled.exists_value {item : Item} (h : item.Settled) (hsound : item.Everywhere Sound)
    {entries : OrderedMap Json} (hrecord : item.sourceData = some (.object entries)) {identifier : String}
    {child : Item} (hchild : OrderedMap.get? item.children identifier = some child)
    (hname : identifier ≠ Identifier.arrayItem) :
    ∃ value, OrderedMap.get? entries child.sampleKey = some value ∧ child.sourceData = some value ∧ child.Settled := by
  have hmem := OrderedMap.mem_of_get?_eq_some hchild
  have hcustom : child.isCustomField = false := hsound.here.level.sampled _ hmem
  cases h with
  | frozen gone => exact absurd hrecord (gone.ne_object entries)
  | array agrees kind children place sample inner =>
    rw [children] at hmem
    exact absurd (congrArg Prod.fst (List.mem_singleton.mp hmem)) hname
  | leaf agrees harray hobject =>
    by_cases hkind : item.fieldType = .object
    · exact absurd hrecord (hobject hkind entries)
    · rw [hsound.here.level.leaf _ rfl harray hkind] at hmem
      cases hmem
  | @object _ fields agrees kind sample level values settled =>
    obtain rfl : fields = entries := by simpa [hrecord] using sample.symm
    obtain ⟨value, hvalue⟩ := level.exists_value hmem hcustom
    exact ⟨value, hvalue, (values _ hmem hcustom).symm.trans hvalue, settled _ hmem hcustom⟩

/-- Along object values, the keys lead to the value that the item at the end records. -/
theorem Settled.valueAt {item : Item} (h : item.Settled) (hsound : item.Everywhere Sound) {value : Json}
    (hrecord : item.sourceData = some value) {identifiers : List String} {found : Item}
    (hfound : item.descend identifiers = some found) (harray : Identifier.arrayItem ∉ identifiers)
    (hobjects : ∀ n < identifiers.length, ∃ entries,
      value.valueAt ((Schema.sampleKeysAlong item.children identifiers).take n) = some (.object entries)) :
    ∃ part, value.valueAt (Schema.sampleKeysAlong item.children identifiers) = some part ∧
      found.sourceData = some part := by
  induction identifiers generalizing item value with
  | nil =>
    cases hfound
    exact ⟨value, by rw [Schema.sampleKeysAlong, Json.valueAt], hrecord⟩
  | cons identifier rest ih =>
    -- With no step taken yet, the assumption says that the item's own value is an object.
    obtain ⟨entries, hentries⟩ := hobjects 0 (Nat.succ_pos _)
    rw [List.take_zero, Json.valueAt] at hentries
    obtain rfl := Option.some.inj hentries
    rw [List.mem_cons, not_or] at harray
    obtain ⟨child, hchild, hrest⟩ := exists_child_of_descend hfound
    obtain ⟨part, hpart, hdata, hsettled⟩ := h.exists_value hsound hrecord hchild (Ne.symm harray.1)
    have hkeys : Schema.sampleKeysAlong item.children (identifier :: rest) =
        child.sampleKey :: Schema.sampleKeysAlong child.children rest := by
      rw [Schema.sampleKeysAlong, hchild]
    have hbelow := hsound.inside _ (OrderedMap.mem_of_get?_eq_some hchild)
    rw [hkeys, Json.valueAt_cons hpart]
    refine ih hsettled hbelow hdata hrest harray.2 fun n hn => ?_
    have hobject := hobjects (n + 1) (Nat.succ_lt_succ hn)
    rwa [hkeys, List.take_succ_cons, Json.valueAt_cons hpart] at hobject

end Item

/-- Under one widget, every item of a schema after a run is found again under its item path, its source
path is the one its default value is bound to, and, unless there is a template on the way or a value that is
no object, the keys on the way lead to its value in the sample that was parsed last. -/
theorem run_resolves {steps : List Step} {widget : String}
    (h : ∀ step ∈ steps, WellFormedSample step.sample ∧ step.widget = widget) {first : String} {rest : List String}
    {item : Item} (hitem : (run steps).find? (first :: rest) = some item) :
    (run steps).itemAt (ItemPath.through first rest) = .ok item ∧
    (∃ source, (run steps).sourcePathAt (ItemPath.through first rest) = .ok source ∧
      item.defaultValue = if Identifier.arrayItem ∈ first :: rest then none
        else some (.string (Binding.forPath widget source))) ∧
    ∀ sample, lastParsed steps = some sample → Identifier.arrayItem ∉ first :: rest →
      (∀ n < rest.length, ∃ entries,
        sample.valueAt (((run steps).sourceKeys (first :: rest)).take n) = some (.object entries)) →
      ∃ value, sample.valueAt ((run steps).sourceKeys (first :: rest)) = some value ∧ item.sourceData = some value := by
  have hsamples : ∀ step ∈ steps, WellFormedSample step.sample := fun step hstep => (h step hstep).1
  have hrun := run_settled hsamples
  obtain ⟨hfirst, hrest⟩ := List.forall_mem_cons.mp (hrun.sound.isWord_of_find? hitem)
  have hpath := ItemPath.identifiers_through hfirst hrest
  obtain ⟨root, source, hroot, hsource, hbound⟩ := (run_boundTo h).find? hitem
  refine ⟨?_, ⟨source, Schema.sourcePathAt_eq hpath hroot hsource, ?_⟩, fun sample hsample harray hobjects => ?_⟩
  · rw [Schema.itemAt, hpath]
    simp only [bind, Except.bind, hitem]
  · rw [hbound.default, Binding.defaultAt]
    simp only [decide_eq_true_eq]
  · have hmem := OrderedMap.mem_of_get?_eq_some hroot
    have hrecord : root.sourceData = some sample := by
      rw [← hsample, ← run_recorded hsamples, Schema.recorded?, Schema.root?, ← hrun.sound.eq_root hroot, hroot]
      rfl
    have hkeys : (run steps).sourceKeys (first :: rest) = Schema.sampleKeysAlong root.children rest := by
      rw [Schema.sourceKeys, hroot]
    rw [Schema.find?_cons, hroot, Option.bind_some] at hitem
    rw [hkeys] at hobjects ⊢
    exact (hrun.items _ hmem).1.valueAt (hrun.sound.items _ hmem) hrecord hitem
      (fun hrest => harray (List.mem_cons_of_mem _ hrest)) hobjects

def nestedRun : List Step :=
  [.parse "Form" (some (.object [("a.b", .object [("children", .int 1)]), ("rows", .array [.object []])])),
    .retype "Form" .select "schema.__root_schema__.children.a_b.children.children"]

theorem run_resolves_nested :
    (∀ step ∈ nestedRun, WellFormedSample step.sample ∧ step.widget = "Form") ∧
    ∃ item, (run nestedRun).find? [Identifier.root, "a_b", "children"] = some item ∧
      (run nestedRun).itemAt (ItemPath.through Identifier.root ["a_b", "children"]) = .ok item ∧
      (∃ source, (run nestedRun).sourcePathAt (ItemPath.through Identifier.root ["a_b", "children"]) = .ok source ∧
        item.defaultValue = if Identifier.arrayItem ∈ [Identifier.root, "a_b", "children"] then none
          else some (.string (Binding.forPath "Form" source))) ∧
      ∀ sample, lastParsed nestedRun = some sample →
        Identifier.arrayItem ∉ [Identifier.root, "a_b", "children"] →
        (∀ n < ["a_b", "children"].length, ∃ entries, sample.valueAt
          (((run nestedRun).sourceKeys [Identifier.root, "a_b", "children"]).take n) = some (.object entries)) →
        ∃ value, sample.valueAt ((run nestedRun).sourceKeys [Identifier.root, "a_b", "children"]) = some value ∧
          item.sourceData = some value := by
  have hsteps : ∀ step ∈ nestedRun, WellFormedSample step.sample ∧ step.widget = "Form" := by
    simp [nestedRun, Step.sample, Step.widget, WellFormedSample, Json.WellFormed, Json.EntriesWellFormed,
      Json.ItemsWellFormed, OrderedMap.Distinct, OrderedMap.keys]
  have hfound : ((run nestedRun).find? [Identifier.root, "a_b", "children"]).isSome = true := by decide +kernel
  obtain ⟨item, hitem⟩ := Option.isSome_iff_exists.mp hfound
  exact ⟨hsteps, item, hitem, run_resolves hsteps hitem⟩

end FormSchema
