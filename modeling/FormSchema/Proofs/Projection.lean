import FormSchema.FieldState
import FormSchema.Proofs.Level.Keyed
import FormSchema.Path

/-!
The projected state of the fields, place by place. A place is reached by accessors and indices in the state
that is shown, and by identifiers and the same indices in the internal state. Where accessors differ, the
projection shows one state for each item, and nothing else of the internal state than what is found there.
-/
namespace FormSchema
open OrderedMap (keys Distinct)

namespace FieldState

def part? : SourceStep → FieldState → Option FieldState
  | .name key, .object fields => OrderedMap.get? fields key
  | .index n, .array elements => elements[n]?
  | _, _ => none

def at? : Option FieldState → List SourceStep → Option FieldState
  | state, [] => state
  | state, step :: rest => at? (state.bind (part? step)) rest

/-- Every element that a path passes is there. -/
def HasElements : Option FieldState → List SourceStep → Prop
  | _, [] => True
  | state, .name key :: rest => HasElements (state.bind (part? (.name key))) rest
  | state, .index n :: rest =>
    (state.bind (part? (.index n))).isSome ∧ HasElements (state.bind (part? (.index n))) rest

def leaf? : FieldState → Option LeafState
  | .leaf state => some state
  | _ => none

private theorem part?_name (key : String) : part? (.name key) = field? key := by
  funext state
  cases state <;> rfl

end FieldState

namespace Schema

def accessors (level : Schema) : List String := level.map fun entry => entry.2.accessor

/-- At every level, no two items have the same accessor. -/
structure AccessorsDiffer (schema : Schema) : Prop where
  top : schema.accessors.Nodup
  below : ∀ entry ∈ schema, entry.2.Everywhere fun item => (accessors item.children).Nodup

instance (schema : Schema) : Decidable schema.AccessorsDiffer :=
  decidable_of_iff
    (schema.accessors.Nodup ∧ ∀ entry ∈ schema, entry.2.Everywhere fun item => (accessors item.children).Nodup)
    ⟨fun ⟨top, below⟩ => ⟨top, below⟩, fun h => ⟨h.top, h.below⟩⟩

end Schema

namespace Item

/-- From the first item, a path in the state that is shown and the path in the internal state that goes with
it lead to the second one. -/
inductive Leads : Item → List SourceStep → List SourceStep → Item → Prop
  | here (item : Item) : Leads item [] [] item
  | field {item found : Item} {entry : String × Item} {shown own : List SourceStep} (kind : item.fieldType = .object)
      (mem : entry ∈ item.children) (rest : Leads entry.2 shown own found) :
      Leads item (.name entry.2.accessor :: shown) (.name entry.2.identifier :: own) found
  | element {item template found : Item} {shown own : List SourceStep} (kind : item.fieldType = .array)
      (mem : OrderedMap.get? item.children Identifier.arrayItem = some template) (n : Nat)
      (rest : Leads template shown own found) : Leads item (.index n :: shown) (.index n :: own) found

private theorem Leads.everywhere {p : Item → Prop} {item found : Item} {shown own : List SourceStep}
    (h : item.Leads shown own found) (hitem : item.Everywhere p) : found.Everywhere p := by
  induction h with
  | here => exact hitem
  | field _ hentry _ ih => exact ih (hitem.inside _ hentry)
  | element _ htemplate _ _ ih => exact ih (hitem.inside _ (OrderedMap.mem_of_get?_eq_some htemplate))

/-- So many elements are shown of an array item: those of the internal state, if there is a template. -/
def elementCount (item : Item) (internal : Option FieldState) : Nat :=
  match OrderedMap.get? item.children Identifier.arrayItem, internal with
  | some _, some (.array elements) => elements.length
  | _, _ => 0

/-- The state of an item that holds no further fields: its own flags, and validity and filter text of the
internal state, which may lack them. -/
def leafShown (item : Item) (internal : Option FieldState) : LeafState where
  isDisabled := item.isDisabled
  isRequired := item.isRequired
  isVisible := item.isVisible
  isValid := ((internal.bind FieldState.leaf?).map LeafState.isValid).getD true
  filterText := (internal.bind FieldState.leaf?).bind LeafState.filterText

/-- What is shown of an item: one state under the accessor of each item below, as many elements as there are,
or the state of the item alone. -/
def Shows (item : Item) (internal : Option FieldState) : FieldState → Prop
  | .object fields => item.fieldType = .object ∧ keys fields = Schema.accessors item.children
  | .array elements => item.fieldType = .array ∧ elements.length = item.elementCount internal
  | .leaf state => item.fieldType ≠ .object ∧ item.fieldType ≠ .array ∧ state = item.leafShown internal

/-- Two internal states that do not differ in what is shown of the item alone. -/
structure SameView (item : Item) (a b : Option FieldState) : Prop where
  elements : item.fieldType = .array → item.elementCount a = item.elementCount b
  leaf : item.fieldType ≠ .object → item.fieldType ≠ .array → item.leafShown a = item.leafShown b

end Item

/-- The same from a level: the first step goes to an item of it. -/
def Schema.Leads (level : Schema) (shown own : List SourceStep) (found : Item) : Prop :=
  ∃ entry ∈ level, ∃ shown' own', shown = .name entry.2.accessor :: shown' ∧
    own = .name entry.2.identifier :: own' ∧ entry.2.Leads shown' own' found

private theorem Item.leads_children_iff {item found : Item} (hkind : item.fieldType = .object) {step : SourceStep}
    {rest own : List SourceStep} :
    Schema.Leads item.children (step :: rest) own found ↔ item.Leads (step :: rest) own found := by
  constructor
  · rintro ⟨entry, hentry, shown, own, hstep, rfl, hleads⟩
    obtain ⟨rfl, rfl⟩ := List.cons.inj hstep
    exact .field hkind hentry hleads
  · intro hleads
    cases hleads with
    | field _ hentry hleads => exact ⟨_, hentry, _, _, rfl, rfl, hleads⟩
    | element harray => exact absurd (hkind.symm.trans harray) (by decide)

namespace FieldState

private theorem projectFields_eq (internal : Option FieldState) (level : List (String × Item)) :
    projectFields internal level = level.map fun entry =>
      (entry.2.accessor, project (internal.bind (part? (.name entry.2.identifier))) entry.2) := by
  induction level with
  | nil => rfl
  | cons entry rest ih =>
    rw [projectFields, ih, List.map_cons, part?_name]

private theorem projectElements_eq (elements : List FieldState) (level : List (String × Item)) :
    projectElements elements level = match OrderedMap.get? level Identifier.arrayItem with
      | some template => elements.map fun element => project (some element) template
      | none => [] := by
  induction level with
  | nil => rfl
  | cons entry rest ih =>
    obtain ⟨key, item⟩ := entry
    rw [projectElements, OrderedMap.get?]
    split
    · rfl
    · exact ih

theorem keys_projectFields (internal : Option FieldState) (level : Schema) :
    keys (projectFields internal level) = level.accessors := by
  rw [projectFields_eq, keys, List.map_map]
  rfl

/-- Where accessors differ, no state takes the place of another one. -/
theorem projectLevel_eq {level : Schema} (h : level.accessors.Nodup) (internal : Option FieldState) :
    projectLevel level internal = projectFields internal level := by
  apply Distinct.ofList_eq
  rw [Distinct, keys_projectFields]
  exact h

private theorem project_object {item : Item} (hkind : item.fieldType = .object) (internal : Option FieldState) :
    project internal item = .object (projectLevel item.children internal) := by
  cases item
  exact if_pos hkind

private theorem project_leaf {item : Item} (hobject : item.fieldType ≠ .object) (harray : item.fieldType ≠ .array)
    (internal : Option FieldState) : project internal item = .leaf (item.leafShown internal) := by
  have hleaf : project internal item = .leaf (LeafState.project item internal) := by
    cases item
    exact (if_neg hobject).trans (if_neg harray)
  rw [hleaf]
  match internal with
  | none | some (.array _) | some (.object _) | some (.leaf _) => rfl

@[simp] theorem at?_none (path : List SourceStep) : at? none path = none := by
  induction path with
  | nil => rfl
  | cons step rest ih => exact ih

private theorem get?_projectFields {level : Schema} (h : level.accessors.Nodup) {internal : Option FieldState}
    {key : String} {state : FieldState} : OrderedMap.get? (projectFields internal level) key = some state ↔
      ∃ entry ∈ level, entry.2.accessor = key ∧
        state = project (internal.bind (part? (.name entry.2.identifier))) entry.2 := by
  have hdistinct : Distinct (projectFields internal level) := by
    rw [Distinct, keys_projectFields]
    exact h
  rw [hdistinct.get?_eq_some_iff, projectFields_eq, List.mem_map]
  constructor
  · rintro ⟨entry, hentry, heq⟩
    obtain ⟨hkey, hstate⟩ := Prod.mk.inj heq
    exact ⟨entry, hentry, hkey, hstate.symm⟩
  · rintro ⟨entry, hentry, rfl, rfl⟩
    exact ⟨entry, hentry, rfl⟩

private theorem project_array {item : Item} (hkind : item.fieldType = .array) (elements : List FieldState) :
    project (some (.array elements)) item = .array (projectElements elements item.children) := by
  have hobject : item.fieldType ≠ .object := by rw [hkind]; decide
  cases item
  exact (if_neg hobject).trans (if_pos hkind)

/-- An array item shows no element where the internal state has no array. -/
private theorem project_array_of_ne {item : Item} (hkind : item.fieldType = .array) {internal : Option FieldState}
    (h : ∀ elements, internal ≠ some (.array elements)) : project internal item = .array [] ∧
      item.elementCount internal = 0 ∧ ∀ n, internal.bind (part? (.index n)) = none := by
  have hobject : item.fieldType ≠ .object := by rw [hkind]; decide
  cases item
  cases internal with
  | none => exact ⟨(if_neg hobject).trans (if_pos hkind), by simp [Item.elementCount], fun _ => rfl⟩
  | some state =>
    cases state with
    | array elements => exact absurd rfl (h elements)
    | leaf | object => exact ⟨(if_neg hobject).trans (if_pos hkind), by simp [Item.elementCount], fun _ => rfl⟩

/-- An array item with a template shows one state for each element of the internal state. -/
private theorem exists_elements {item : Item} (hkind : item.fieldType = .array) (internal : Option FieldState) :
    ∃ elements, project internal item = .array elements ∧ elements.length = item.elementCount internal ∧
      ∀ n state, elements[n]? = some state ↔ ∃ template element,
        OrderedMap.get? item.children Identifier.arrayItem = some template ∧
        internal.bind (part? (.index n)) = some element ∧ state = project (some element) template := by
  by_cases harray : ∃ elements, internal = some (.array elements)
  · obtain ⟨elements, rfl⟩ := harray
    refine ⟨_, project_array hkind elements, ?_, fun n state => ?_⟩
    · rw [projectElements_eq]
      cases htemplate : OrderedMap.get? item.children Identifier.arrayItem <;> simp [Item.elementCount, htemplate]
    · rw [projectElements_eq]
      cases OrderedMap.get? item.children Identifier.arrayItem with
      | none => simp
      | some template =>
        simp only [List.getElem?_map, Option.map_eq_some_iff, Option.some.injEq, Option.bind_some, part?]
        constructor
        · rintro ⟨element, helement, rfl⟩
          exact ⟨template, element, rfl, helement, rfl⟩
        · rintro ⟨_, element, rfl, helement, rfl⟩
          exact ⟨element, helement, rfl⟩
  · obtain ⟨hproject, hcount, hpart⟩ := project_array_of_ne hkind (not_exists.mp harray)
    exact ⟨[], hproject, hcount.symm, by simp [hpart]⟩

/-- The states below the states of a level. -/
private theorem at?_projectLevel {level : Schema} (hhere : level.accessors.Nodup) {rest : List SourceStep}
    {state : FieldState} (ih : ∀ entry ∈ level, ∀ internal, at? (some (project internal entry.2)) rest = some state ↔
      ∃ own found, entry.2.Leads rest own found ∧ HasElements internal own ∧ state = project (at? internal own) found)
    (internal : Option FieldState) (step : SourceStep) :
    at? (some (.object (projectLevel level internal))) (step :: rest) = some state ↔
      ∃ own found, level.Leads (step :: rest) own found ∧ HasElements internal own ∧
        state = project (at? internal own) found := by
  rw [projectLevel_eq hhere]
  constructor
  · intro hstate
    cases step with
    | index n => simp [at?, part?] at hstate
    | name key =>
      change at? (OrderedMap.get? (projectFields internal level) key) rest = some state at hstate
      cases hchild : OrderedMap.get? (projectFields internal level) key with
      | none => simp [hchild] at hstate
      | some child =>
        obtain ⟨entry, hentry, rfl, rfl⟩ := (get?_projectFields hhere).mp hchild
        rw [hchild] at hstate
        obtain ⟨own, found, hleads, helements, heq⟩ := (ih entry hentry _).mp hstate
        exact ⟨_, found, ⟨entry, hentry, rest, own, rfl, rfl, hleads⟩, helements, heq⟩
  · rintro ⟨_, found, ⟨entry, hentry, _, own, hstep, rfl, hleads⟩, helements, heq⟩
    obtain ⟨rfl, rfl⟩ := List.cons.inj hstep
    change at? (OrderedMap.get? (projectFields internal level) entry.2.accessor) rest = some state
    rw [(get?_projectFields hhere).mpr ⟨entry, hentry, rfl, rfl⟩]
    exact (ih entry hentry _).mpr ⟨own, found, hleads, helements, heq⟩

/-- The states below the state of an array item. -/
private theorem at?_project_array {item : Item} (hkind : item.fieldType = .array) {rest : List SourceStep}
    {state : FieldState} (ih : ∀ entry ∈ item.children, ∀ internal,
      at? (some (project internal entry.2)) rest = some state ↔ ∃ own found, entry.2.Leads rest own found ∧
        HasElements internal own ∧ state = project (at? internal own) found)
    (internal : Option FieldState) (step : SourceStep) :
    at? (some (project internal item)) (step :: rest) = some state ↔
      ∃ own found, item.Leads (step :: rest) own found ∧ HasElements internal own ∧
        state = project (at? internal own) found := by
  obtain ⟨elements, hproject, -, helements⟩ := exists_elements hkind internal
  rw [hproject]
  constructor
  · intro hstate
    cases step with
    | name key => simp [at?, part?] at hstate
    | index n =>
      change at? elements[n]? rest = some state at hstate
      cases hchild : elements[n]? with
      | none => simp [hchild] at hstate
      | some child =>
        obtain ⟨template, element, htemplate, helement, rfl⟩ := (helements n child).mp hchild
        rw [hchild] at hstate
        obtain ⟨own, found, hleads, hinner, heq⟩ := (ih _ (OrderedMap.mem_of_get?_eq_some htemplate) _).mp hstate
        refine ⟨_, found, .element hkind htemplate n hleads, ?_, ?_⟩
        · exact ⟨helement ▸ rfl, helement ▸ hinner⟩
        · rw [at?, helement]
          exact heq
  · rintro ⟨own, found, hleads, hinner, heq⟩
    cases hleads with
    | field hobject => exact absurd (hkind.symm.trans hobject) (by decide)
    | @element _ template _ _ own _ htemplate n hleads =>
      obtain ⟨hthere, hinner⟩ := hinner
      obtain ⟨element, helement⟩ := Option.isSome_iff_exists.mp hthere
      rw [helement] at hinner
      rw [at?, helement] at heq
      change at? elements[n]? rest = some state
      rw [(helements n _).mpr ⟨template, element, htemplate, helement, rfl⟩]
      exact (ih _ (OrderedMap.mem_of_get?_eq_some htemplate) _).mpr ⟨own, found, hleads, hinner, heq⟩

/-- A place below the state of an item is one that leads to an item, and it has the state of that item. -/
private theorem at?_project {item : Item} (h : item.Everywhere fun item => (Schema.accessors item.children).Nodup)
    (internal : Option FieldState) (shown : List SourceStep) (state : FieldState) :
    at? (some (project internal item)) shown = some state ↔
      ∃ own found, item.Leads shown own found ∧ HasElements internal own ∧
        state = project (at? internal own) found := by
  induction shown generalizing item internal with
  | nil =>
    constructor
    · intro hstate
      exact ⟨[], item, .here item, trivial, (Option.some.inj hstate).symm⟩
    · rintro ⟨own, found, hleads, -, heq⟩
      cases hleads
      exact congrArg some heq.symm
  | cons step rest ih =>
    have ihchild := fun entry hentry => ih (h.inside entry hentry)
    by_cases hobject : item.fieldType = .object
    · rw [project_object hobject, at?_projectLevel h.here ihchild internal step]
      simp only [Item.leads_children_iff hobject]
    · by_cases harray : item.fieldType = .array
      · exact at?_project_array harray ihchild internal step
      · rw [project_leaf hobject harray]
        constructor
        · intro hstate
          cases step <;> simp [at?, part?] at hstate
        · rintro ⟨own, found, hleads, -, -⟩
          cases hleads with
          | field hkind => exact absurd hkind hobject
          | element hkind => exact absurd hkind harray

private theorem shows_project {item : Item} (h : (Schema.accessors item.children).Nodup)
    (internal : Option FieldState) :
    item.Shows internal (project internal item) := by
  by_cases hobject : item.fieldType = .object
  · rw [project_object hobject, projectLevel_eq h]
    exact ⟨hobject, keys_projectFields ..⟩
  · by_cases harray : item.fieldType = .array
    · obtain ⟨elements, hproject, hlength, -⟩ := exists_elements harray internal
      rw [hproject]
      exact ⟨harray, hlength⟩
    · rw [project_leaf hobject harray]
      exact ⟨hobject, harray, rfl⟩

private abbrev SamePlaces (a b : Option FieldState) (item : Item) : Prop :=
  ∀ shown own found, item.Leads shown own found → found.SameView (at? a own) (at? b own)

private theorem project_congr_of_children {item : Item} (heach : ∀ entry ∈ item.children, ∀ a b,
      SamePlaces a b entry.2 → project a entry.2 = project b entry.2)
    (a b : Option FieldState) (h : SamePlaces a b item) : project a item = project b item := by
  have hhere : item.SameView a b := h [] [] item (.here item)
  by_cases hobject : item.fieldType = .object
  · have hfields : projectFields a item.children = projectFields b item.children := by
      rw [projectFields_eq, projectFields_eq]
      refine List.map_congr_left fun entry hentry => congrArg (Prod.mk _) (heach entry hentry _ _ ?_)
      intro shown own found hleads
      exact h _ _ found (.field hobject hentry hleads)
    rw [project_object hobject, project_object hobject, projectLevel, projectLevel, hfields]
  · by_cases harray : item.fieldType = .array
    · obtain ⟨xs, hx, hxs, hxstate⟩ := exists_elements harray a
      obtain ⟨ys, hy, hys, hystate⟩ := exists_elements harray b
      have hlength : xs.length = ys.length := by rw [hxs, hys, hhere.elements harray]
      have hsame : xs = ys := by
        refine List.ext_getElem hlength fun n hn hn' => ?_
        obtain ⟨template, x, htemplate, hax, hx⟩ := (hxstate n _).mp (List.getElem?_eq_getElem hn)
        obtain ⟨template', y, htemplate', hby, hy⟩ := (hystate n _).mp (List.getElem?_eq_getElem hn')
        obtain rfl := Option.some.inj (htemplate.symm.trans htemplate')
        rw [hx, hy]
        refine heach _ (OrderedMap.mem_of_get?_eq_some htemplate) _ _ fun shown own found hleads => ?_
        have hplace := h _ _ found (.element harray htemplate n hleads)
        rwa [at?, at?, hax, hby] at hplace
      rw [hx, hy, hsame]
    · rw [project_leaf hobject harray, project_leaf hobject harray, hhere.leaf hobject harray]

mutual
/-- Nothing but what is shown at some place matters. -/
private theorem project_congr : (item : Item) → ∀ a b, SamePlaces a b item → project a item = project b item
  | { children, .. } => project_congr_of_children (project_congr_each children)
termination_by structural item => item

private theorem project_congr_each : (level : List (String × Item)) → ∀ entry ∈ level, ∀ a b,
    SamePlaces a b entry.2 → project a entry.2 = project b entry.2
  | [] => List.forall_mem_nil _
  | (_, item) :: rest => List.forall_mem_cons.mpr ⟨project_congr item, project_congr_each rest⟩
termination_by structural level => level
end

/-- The projection of a level is faithful. It has one state for each item, under its accessor and in stored
order, at every level; a place in it is one that leads to an item, and shows what the internal state has at the
place that goes with it; and internal states that show the same everywhere have the same projection. -/
theorem projectLevel_faithful {level : Schema} (h : level.AccessorsDiffer) (internal : Option FieldState) :
    keys (projectLevel level internal) = level.accessors ∧
    (∀ shown own item, level.Leads shown own item → HasElements internal own →
      ∃ state, at? (some (.object (projectLevel level internal))) shown = some state ∧
        item.Shows (at? internal own) state) ∧
    (∀ step rest state, at? (some (.object (projectLevel level internal))) (step :: rest) = some state →
      ∃ own item, level.Leads (step :: rest) own item ∧ HasElements internal own ∧
        item.Shows (at? internal own) state) ∧
    ∀ other, (∀ shown own item, level.Leads shown own item → item.SameView (at? internal own) (at? other own)) →
      projectLevel level other = projectLevel level internal := by
  have hplaces : ∀ step rest state, at? (some (.object (projectLevel level internal))) (step :: rest) = some state ↔
      ∃ own item, level.Leads (step :: rest) own item ∧ HasElements internal own ∧
        state = project (at? internal own) item := fun step rest state =>
    at?_projectLevel h.top (fun entry hentry internal => at?_project (h.below entry hentry) internal rest state)
      internal step
  refine ⟨?_, fun shown own item hleads helements => ?_, fun step rest state hstate => ?_, fun other hsame => ?_⟩
  · rw [projectLevel_eq h.top]
    exact keys_projectFields ..
  · obtain ⟨entry, hentry, rest, own', rfl, rfl, hrest⟩ := hleads
    refine ⟨_, (hplaces _ rest _).mpr ⟨_, item, ⟨entry, hentry, rest, own', rfl, rfl, hrest⟩, helements, rfl⟩, ?_⟩
    exact shows_project ((hrest.everywhere (h.below entry hentry)).here) _
  · obtain ⟨own, item, hleads, helements, rfl⟩ := (hplaces step rest state).mp hstate
    obtain ⟨entry, hentry, _, _, -, -, hrest⟩ := id hleads
    exact ⟨own, item, hleads, helements, shows_project (hrest.everywhere (h.below entry hentry)).here _⟩
  · have hfields : projectFields other level = projectFields internal level := by
      rw [projectFields_eq, projectFields_eq]
      refine List.map_congr_left fun entry hentry => congrArg (Prod.mk _) (project_congr entry.2 _ _ ?_).symm
      intro shown own found hleads
      exact hsame _ _ found ⟨entry, hentry, shown, own, rfl, rfl, hleads⟩
    rw [projectLevel, projectLevel, hfields]

def gradeField : Item :=
  { Item.fresh { widget := "Form" } (.field "grade" "grade" SourcePath.root) (some (.int 1)) [] with
    accessor := "mark"
    isRequired := true }

def schoolsField : Item :=
  let sample : Json := .object [("grade", .int 1)]
  Item.fresh { widget := "Form" } (.field "my schools" "my_schools" SourcePath.root) (some (.array [sample]))
    [(Identifier.arrayItem, Item.fresh { widget := "Form" } (.template SourcePath.root) (some sample)
      [("grade", gradeField)])]

def schoolsLevel : Schema :=
  let ctx : Context := { widget := "Form" }
  [("person", Item.fresh ctx (.field "person" "person" SourcePath.root) (some (.object []))
      [("my_schools", schoolsField)]),
    ("open", Item.fresh ctx (.field "open" "open" SourcePath.root) (some (.bool true)) [])]

def schoolsState : FieldState :=
  .object [("person", .object [("unknown", .leaf {}), ("my_schools", .array
    [.leaf {}, .object [("grade", .leaf { isValid := false, filterText := some "g" })]])]), ("open", .object [])]

theorem projectLevel_faithful_schools :
    schoolsLevel.AccessorsDiffer ∧ keys (projectLevel schoolsLevel (some schoolsState)) = ["person", "open"] ∧
    ∃ state, at? (some (.object (projectLevel schoolsLevel (some schoolsState))))
        [.name "person", .name "my schools", .index 1, .name "mark"] = some state ∧
      gradeField.Shows (some (.leaf { isValid := false, filterText := some "g" })) state := by
  have hdiffer : schoolsLevel.AccessorsDiffer := by decide +kernel
  obtain ⟨hkeys, hplaces, -, -⟩ := projectLevel_faithful hdiffer (some schoolsState)
  have hleads : schoolsLevel.Leads [.name "person", .name "my schools", .index 1, .name "mark"]
      [.name "person", .name "my_schools", .index 1, .name "grade"] gradeField := by
    have hgrade : schoolsField.Leads [.index 1, .name "mark"] [.index 1, .name "grade"] gradeField := by
      refine .element rfl rfl 1 ?_
      exact @Item.Leads.field _ _ ("grade", gradeField) _ _ rfl List.mem_cons_self (.here gradeField)
    refine ⟨_, List.mem_cons_self, _, _, rfl, rfl, ?_⟩
    exact @Item.Leads.field _ _ ("my_schools", schoolsField) _ _ rfl List.mem_cons_self hgrade
  exact ⟨hdiffer, hkeys, hplaces _ _ _ hleads ⟨rfl, trivial⟩⟩

end FieldState
end FormSchema
