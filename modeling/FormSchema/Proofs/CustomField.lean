import FormSchema.Proofs.Descent
import FormSchema.Proofs.Level.Kept
import FormSchema.Proofs.Reachable

/-!
Custom fields below the fields of a sample. One lasts as long as the fields above it keep their shape.
An array that is built anew takes nothing along, and it is built anew whenever the type of its elements
is not the one recorded; an empty array has elements of no type.
-/
namespace FormSchema
open OrderedMap (keys Distinct)

namespace Item

/-- An item that stands for a value of a type and has the kind that goes with the type. -/
structure Stands (type : DataType) (kind : FieldType) (item : Item) : Prop where
  sampled : item.isCustomField = false
  type : item.dataType = type
  kind : item.fieldType = kind

/-- An array on the way to a field, with the elements it gets and its template, if that is where the way
leads. -/
structure ArrayStep where
  array : Item
  template : Option Item
  elements : List Json

/-- The elements have the type that was recorded, and the way leads through the template, one of objects if
there are elements. -/
structure ArrayStep.Keeps (step : ArrayStep) : Prop where
  elements : elementTypeChanged (some (.array step.elements)) step.array.sourceData = false
  template : ∃ template, step.template = some template ∧ (step.elements ≠ [] → template.dataType = .object)

/-- The way down from an item and its new sample to a field, with the arrays it passes. It leads through
object items whose values are objects and array items whose values are arrays of objects. What lies
below a null, below the template of an array without elements, below a template of anything but objects,
or beside a template, is not asked of the sample. -/
inductive Way (field : Item) : Item → Option Json → List String → List ArrayStep → Prop
  | custom {item : Item} {entries : OrderedMap Json} {identifier : String} (object : item.Stands .object .object)
      (mem : OrderedMap.get? item.children identifier = some field) :
      Way field item (some (.object entries)) [identifier] []
  | field {item child : Item} {entries : OrderedMap Json} {identifier : String} {value : Json}
      {path : List String} {steps : List ArrayStep} (object : item.Stands .object .object)
      (mem : OrderedMap.get? item.children identifier = some child)
      (found : OrderedMap.get? entries child.sampleKey = some value) (rest : Way field child (some value) path steps) :
      Way field item (some (.object entries)) (identifier :: path) steps
  | null {item : Item} {path : List String} (container : item.Stands .object .object ∨ item.Stands .array .array)
      (below : item.descend path = some field) : Way field item (some .null) path []
  | elements {item template : Item} {elements : List Json} {path : List String} {steps : List ArrayStep}
      (array : item.Stands .array .array) (objects : ∀ element ∈ elements, element.isObject = true)
      (mem : OrderedMap.get? item.children Identifier.arrayItem = some template)
      (rest : Way field template (representative (some (.array elements))) path steps) :
      Way field item (some (.array elements)) (Identifier.arrayItem :: path)
        (⟨item, some template, elements⟩ :: steps)
  | unread {item template : Item} {elements : List Json} {path : List String} (array : item.Stands .array .array)
      (objects : ∀ element ∈ elements, element.isObject = true)
      (mem : OrderedMap.get? item.children Identifier.arrayItem = some template)
      (sampled : template.isCustomField = false) (kind : template.fieldType = .array → template.dataType = .array)
      (unread : elements = [] ∨ template.dataType ≠ .object) (below : template.descend path = some field) :
      Way field item (some (.array elements)) (Identifier.arrayItem :: path) [⟨item, some template, elements⟩]
  | beside {item child : Item} {elements : List Json} {identifier : String} {path : List String}
      (array : item.Stands .array .array) (objects : ∀ element ∈ elements, element.isObject = true)
      (name : identifier ≠ Identifier.arrayItem) (mem : OrderedMap.get? item.children identifier = some child)
      (below : child.descend path = some field) :
      Way field item (some (.array elements)) (identifier :: path) [⟨item, none, elements⟩]

namespace Stands
variable {item : Item}

private theorem matches_object (h : item.Stands .object .object) (entries : OrderedMap Json) :
    item.Matches (some (.object entries)) where
  types := .inl h.type.symm
  elements := rfl

private theorem matches_array (h : item.Stands .array .array) {elements : List Json}
    (hsame : elementTypeChanged (some (.array elements)) item.sourceData = false) :
    item.Matches (some (.array elements)) where
  types := .inl h.type.symm
  elements := hsame

/-- An array item follows an array whose elements are of the recorded type. -/
private theorem get?_reconcile (h : item.Stands .array .array) {elements : List Json}
    (hsame : elementTypeChanged (some (.array elements)) item.sourceData = false) {template : Item}
    (htemplate : OrderedMap.get? item.children Identifier.arrayItem = some template) (ctx : Context) (spec : ItemSpec) :
    OrderedMap.get? (reconcile ctx spec (some item) (some (.array elements))).children Identifier.arrayItem =
      some ((reconcile ctx.enterArray (.template spec.sourcePath) (some template)
        (representative (some (.array elements)))).movedTo 0) :=
  (h.matches_array hsame).get?_reconcile_array h.kind htemplate ctx spec

/-- What stands beside the template of such an array item is dropped. -/
private theorem descend_reconcile_beside (h : item.Stands .array .array) {elements : List Json}
    (hsame : elementTypeChanged (some (.array elements)) item.sourceData = false) {identifier : String}
    (hname : identifier ≠ Identifier.arrayItem) {path : List String} {ctx : Context} {spec : ItemSpec} :
    (reconcile ctx spec (some item) (some (.array elements))).descend (identifier :: path) = none := by
  rw [descend, (h.matches_array hsame).children_reconcile, h.kind, childrenFor_array, templateLevel_eq,
    OrderedMap.get?, if_neg hname.symm]
  rfl

end Stands

/-- An item whose elements have another type is built anew. -/
private theorem reconcile_of_elementTypeChanged {item : Item} {elements : List Json}
    (h : elementTypeChanged (some (.array elements)) item.sourceData = true) (ctx : Context) (spec : ItemSpec) :
    reconcile ctx spec (some item) (some (.array elements)) = rebuild ctx spec item (some (.array elements)) := by
  apply reconcile_of_changed
  · rintro ⟨hmissing, -⟩
    cases hmissing
  · rintro ⟨-, hsame⟩
    rw [hsame] at h
    cases h

/-- So is an item of another type that gets an object. -/
private theorem reconcile_object_of_ne {item : Item} (h : item.dataType ≠ .object) (entries : OrderedMap Json)
    (ctx : Context) (spec : ItemSpec) : reconcile ctx spec (some item) (some (.object entries)) =
      rebuild ctx spec item (some (.object entries)) := by
  apply reconcile_of_changed
  · rintro ⟨hmissing, -⟩
    cases hmissing
  · rintro ⟨htype | ⟨hmissing, -⟩, -⟩
    · exact h htype.symm
    · cases hmissing

/-- Where there is no value, the level below stays, unless it is one of a template that is not there. -/
private theorem children_reconcile_none {item : Item} (hkind : item.fieldType = .array → item.dataType = .array)
    (ctx : Context) (spec : ItemSpec) : (reconcile ctx spec (some item) none).children = item.children := by
  cases hmissing : item.dataType.isNullish with
  | false =>
    have hfrozen : item.Frozen none := ⟨rfl, hmissing⟩
    rw [reconcile_of_frozen hfrozen]
    rfl
  | true =>
    have hmatches : item.Matches none := ⟨.inr ⟨rfl, hmissing⟩, rfl⟩
    have harray : item.fieldType ≠ .array := by
      intro harray
      rw [hkind harray] at hmissing
      cases hmissing
    rw [hmatches.children_reconcile]
    exact childrenFor_other harray (by simp) ..

/-- Nothing below an item that is built anew is custom. -/
private theorem not_custom_of_descend_rebuild {sample : Option Json} (hsample : WellFormedSample sample) {ctx : Context}
    {spec : ItemSpec} {item found : Item} {path : List String} (hpath : path ≠ [])
    (hfound : (rebuild ctx spec item sample).descend path = some found) : ¬ found.isCustomField = true := by
  have hbuilt := everywhere_sound_build hsample ctx
    { spec with
      fieldType := spec.fieldType <|> if item.isFieldTypeOverridden then some item.fieldType else none
      isCustomField := item.isCustomField }
  rw [← Schema.find?_children hpath] at hfound
  rw [((Schema.Sound.below hbuilt).find? hfound).2]
  exact Bool.false_ne_true

/-- So where one is found below an array, the elements have the type that was recorded. -/
private theorem same_elements_of_descend {elements : List Json} (hsample : WellFormedSample (some (.array elements)))
    {ctx : Context} {spec : ItemSpec} {item found : Item} {path : List String} (hpath : path ≠ [])
    (hfound : (reconcile ctx spec (some item) (some (.array elements))).descend path = some found)
    (hcustom : found.isCustomField = true) : elementTypeChanged (some (.array elements)) item.sourceData = false := by
  cases hchanged : elementTypeChanged (some (.array elements)) item.sourceData with
  | false => rfl
  | true =>
    rw [reconcile_of_elementTypeChanged hchanged] at hfound
    exact absurd hcustom (not_custom_of_descend_rebuild hsample hpath hfound)

private theorem ne_nil_of_descend {item field : Item} {path : List String} (hfound : item.descend path = some field)
    (hitem : item.isCustomField = false) (hfield : field.isCustomField = true) : path ≠ [] := by
  rintro rfl
  rw [Option.some.inj hfound, hfield] at hitem
  cases hitem

private theorem exists_representative_of_objects {elements : List Json} (hsome : elements ≠ [])
    (hobjects : ∀ element ∈ elements, element.isObject = true) :
    ∃ entries, representative (some (.array elements)) = some (.object entries) := by
  obtain ⟨first, rest, rfl⟩ := List.exists_cons_of_ne_nil hsome
  have hfirst := hobjects first List.mem_cons_self
  cases first with
  | object fields => exact ⟨_, rfl⟩
  | _ => cases hfirst

namespace Way
variable {field item : Item} {sample : Option Json} {path : List String} {steps : List ArrayStep}

theorem sampled (h : Way field item sample path steps) : item.isCustomField = false := by
  cases h with
  | custom object mem => exact object.sampled
  | field object mem found rest => exact object.sampled
  | null container below => exact container.elim Stands.sampled Stands.sampled
  | elements array objects mem rest => exact array.sampled
  | unread array objects mem sampled kind unread below => exact array.sampled
  | beside array objects name mem below => exact array.sampled

/-- The way leads to the field. -/
private theorem descend_eq (h : Way field item sample path steps) : item.descend path = some field := by
  induction h with
  | custom object mem => exact descend_cons mem []
  | field object mem found rest ih => exact (descend_cons mem _).trans ih
  | null container below => exact below
  | elements array objects mem rest ih => exact (descend_cons mem _).trans ih
  | unread array objects mem sampled kind unread below => exact (descend_cons mem _).trans below
  | beside array objects name mem below => exact (descend_cons mem _).trans below

private theorem path_ne_nil (h : Way field item sample path steps) (hfield : field.isCustomField = true) : path ≠ [] :=
  ne_nil_of_descend h.descend_eq h.sampled hfield

/-- A template that is reconciled with an object on the way is one of objects. -/
private theorem dataType_eq_object {entries : OrderedMap Json}
    (h : Way field item (some (.object entries)) path steps) :
    item.dataType = .object := by
  cases h with
  | custom object mem => exact object.type
  | field object mem found rest => exact object.type

/-- Where every array on the way keeps its template, reconciliation keeps the field. -/
private theorem descend_reconcile (h : Way field item sample path steps) (hfield : field.isCustomField = true)
    (hitem : item.Everywhere fun item => Schema.WellKeyed item.children) (hsample : WellFormedSample sample)
    (hkeeps : ∀ step ∈ steps, step.Keeps) (ctx : Context) (spec : ItemSpec) :
    ∃ n, (reconcile ctx spec (some item) sample).descend path = some (field.movedTo n) := by
  induction h generalizing ctx spec with
  | @custom item entries identifier object mem =>
    obtain ⟨n, hget⟩ := (object.matches_object entries).exists_get?_custom object.kind hitem.here
      hsample.distinct mem hfield ctx spec
    exact ⟨n, descend_cons hget []⟩
  | @field item child entries identifier value path steps object mem found rest ih =>
    obtain ⟨n, hget⟩ := (object.matches_object entries).exists_get?_sampled object.kind hitem.here
      hsample.distinct mem rest.sampled found ctx spec
    have hchild := hitem.inside _ (OrderedMap.mem_of_get?_eq_some mem)
    obtain ⟨m, hrest⟩ := ih hchild (hsample.value found) hkeeps ctx
      (.field child.sampleKey identifier spec.sourcePath)
    refine ⟨m, ?_⟩
    rw [descend_cons hget, descend_movedTo _ n (rest.path_ne_nil hfield)]
    exact hrest
  | @null item path container below =>
    have hfrozen : item.Frozen (some .null) := by
      rcases container with object | array
      · exact ⟨rfl, by rw [object.type]; rfl⟩
      · exact ⟨rfl, by rw [array.type]; rfl⟩
    have hpath := (Way.null container below).path_ne_nil hfield
    refine ⟨field.position, ?_⟩
    rw [reconcile_of_frozen hfrozen, movedTo_position, ← below]
    apply descend_congr
    · rfl
    · exact hpath
  | @elements item template elements path steps array objects mem rest ih =>
    obtain ⟨hhead, hrest⟩ := List.forall_mem_cons.mp hkeeps
    have htemplate := hitem.inside _ (OrderedMap.mem_of_get?_eq_some mem)
    obtain ⟨m, hbelow⟩ := ih htemplate hsample.representative hrest ctx.enterArray (.template spec.sourcePath)
    refine ⟨m, ?_⟩
    rw [descend_cons (array.get?_reconcile hhead.elements mem ctx spec), descend_movedTo _ 0 (rest.path_ne_nil hfield)]
    exact hbelow
  | @unread item template elements path array objects mem sampled kind unread below =>
    obtain ⟨hsame, _, ⟨⟩, hobject⟩ := hkeeps _ List.mem_cons_self
    have hempty : elements = [] := by
      by_contra hsome
      exact unread.elim hsome fun htype => htype (hobject hsome)
    subst hempty
    have hpath := ne_nil_of_descend below sampled hfield
    refine ⟨field.position, ?_⟩
    rw [descend_cons (array.get?_reconcile hsame mem ctx spec), descend_movedTo _ 0 hpath, movedTo_position, ← below]
    exact descend_congr (children_reconcile_none kind ..) hpath
  | beside array objects name mem below =>
    obtain ⟨-, _, ⟨⟩, -⟩ := hkeeps _ List.mem_cons_self

/-- Where a custom field is still found at the end of the way, every array on it has kept its template. -/
private theorem keeps_of_descend (h : Way field item sample path steps) (hfield : field.isCustomField = true)
    (hitem : item.Everywhere fun item => Schema.WellKeyed item.children) (hsample : WellFormedSample sample)
    {ctx : Context} {spec : ItemSpec} {found : Item}
    (hfound : (reconcile ctx spec (some item) sample).descend path = some found)
    (hcustom : found.isCustomField = true) : ∀ step ∈ steps, step.Keeps := by
  induction h generalizing ctx spec with
  | custom object mem => simp
  | @field item child entries identifier value path steps object mem found rest ih =>
    obtain ⟨n, hget⟩ := (object.matches_object entries).exists_get?_sampled object.kind hitem.here
      hsample.distinct mem rest.sampled found ctx spec
    rw [descend_cons hget, descend_movedTo _ n (rest.path_ne_nil hfield)] at hfound
    exact ih (hitem.inside _ (OrderedMap.mem_of_get?_eq_some mem)) (hsample.value found) hfound
  | null container below => simp
  | @elements item template elements path steps array objects mem rest ih =>
    have hsame := same_elements_of_descend hsample (by simp) hfound hcustom
    rw [descend_cons (array.get?_reconcile hsame mem ctx spec), descend_movedTo _ 0 (rest.path_ne_nil hfield)] at hfound
    have hrest := ih (hitem.inside _ (OrderedMap.mem_of_get?_eq_some mem)) hsample.representative hfound
    refine List.forall_mem_cons.mpr ⟨⟨hsame, template, rfl, fun hsome => ?_⟩, hrest⟩
    obtain ⟨entries, hentries⟩ := exists_representative_of_objects hsome objects
    rw [hentries] at rest
    exact rest.dataType_eq_object
  | @unread item template elements path array objects mem sampled kind unread below =>
    have hsame := same_elements_of_descend hsample (by simp) hfound hcustom
    refine List.forall_mem_singleton.mpr ⟨hsame, template, rfl, fun hsome => ?_⟩
    by_contra htype
    obtain ⟨entries, hentries⟩ := exists_representative_of_objects hsome objects
    have hpath := ne_nil_of_descend below sampled hfield
    rw [descend_cons (array.get?_reconcile hsame mem ctx spec), hentries, reconcile_object_of_ne htype,
      descend_movedTo _ 0 hpath] at hfound
    exact not_custom_of_descend_rebuild (hentries ▸ hsample.representative) hpath hfound hcustom
  | @beside item child elements identifier path array objects name mem below =>
    have hsame := same_elements_of_descend hsample (by simp) hfound hcustom
    rw [array.descend_reconcile_beside hsame name] at hfound
    cases hfound

end Way

end Item

namespace Schema

/-- Parsing leaves a custom field in its place, moved at most, exactly if each array on the way to it gets
elements of the type that was recorded and has the field below its template, one of objects if there are
elements. -/
theorem parse_keeps_custom_iff {previous : Schema} (hprevious : previous.WellFormed) {entries : OrderedMap Json}
    (hsample : (Json.object entries).WellFormed) (widget : String) {root field : Item} {path : List String}
    {steps : List Item.ArrayStep} (hroot : previous.root? = some root) (hfield : field.isCustomField = true)
    (hway : Item.Way field root (some (.object entries)) path steps) :
    previous.find? (Identifier.root :: path) = some field ∧
      ∃ schema, parse widget (some (.object entries)) previous = .ok schema ∧
        ((∃ n, schema.find? (Identifier.root :: path) = some (field.movedTo n)) ↔ ∀ step ∈ steps, step.Keeps) := by
  have hitem := hprevious.of_root? hroot
  have hwell := wellFormedSample_some.mpr hsample
  refine ⟨?_, _, parse_object .., ?_⟩
  · rw [find?_cons, show OrderedMap.get? previous Identifier.root = some root from hroot]
    exact hway.descend_eq
  have hfind : find? (parsed widget entries previous) (Identifier.root :: path) =
      (Item.reconcile { widget } rootSpec (some root) (some (.object entries))).descend path := by
    rw [parsed, hroot, find?_cons, OrderedMap.get?, if_pos rfl]
    exact Item.descend_movedTo _ 0 (hway.path_ne_nil hfield)
  rw [hfind]
  constructor
  · rintro ⟨n, hfound⟩
    exact hway.keeps_of_descend hfield hitem hwell hfound hfield
  · intro hkeeps
    exact hway.descend_reconcile hfield hitem hwell hkeeps _ _

/-! A form over an array of one object, with a note added by hand to the template. -/

def notedNote : Item :=
  Item.fresh { widget := "Form" }
    { ItemSpec.field "note" "note" SourcePath.root with fieldType := some .textInput, isCustomField := true } none []

def notedTemplate : Item :=
  let ctx : Context := { widget := "Form", withinArray := true }
  let x := Item.fresh ctx (.field "x" "x" "sourceData.rows[0]") (some (.int 1)) []
  (Item.fresh ctx (.template "sourceData.rows") (some (.object [("x", .int 1)]))
    [("x", x.movedTo 0), ("note", notedNote)]).movedTo 0

def notedRows : Item :=
  (Item.fresh { widget := "Form" } (.field "rows" "rows" SourcePath.root) (some (.array [.object [("x", .int 1)]]))
    [(Identifier.arrayItem, notedTemplate)]).movedTo 0

def notedRoot : Item :=
  (Item.fresh { widget := "Form" } rootSpec (some (.object [("rows", .array [.object [("x", .int 1)]])]))
    [("rows", notedRows)]).movedTo 0

private theorem notedRoot_wellFormed : WellFormed [(Identifier.root, notedRoot)] := by decide +kernel

/-- The way to the note, for elements whose objects merge into one. -/
private theorem notedWay {elements : List Json} {entries : OrderedMap Json}
    (hobjects : ∀ element ∈ elements, element.isObject = true)
    (hentries : representative (some (.array elements)) = some (.object entries)) :
    Item.Way notedNote notedRoot (some (.object [("rows", .array elements)])) ["rows", Identifier.arrayItem, "note"]
      [⟨notedRows, some notedTemplate, elements⟩] := by
  refine .field ⟨rfl, rfl, rfl⟩ rfl rfl (.elements ⟨rfl, rfl, rfl⟩ hobjects rfl ?_)
  rw [hentries]
  exact .custom ⟨rfl, rfl, rfl⟩ rfl

def notedElements : List Json := [.object [("x", .int 2)], .object [("y", .null)]]

theorem parse_keeps_custom_iff_noted :
    WellFormed [(Identifier.root, notedRoot)] ∧ (Json.object [("rows", .array notedElements)]).WellFormed ∧
    root? [(Identifier.root, notedRoot)] = some notedRoot ∧ notedNote.isCustomField = true ∧
    Item.Way notedNote notedRoot (some (.object [("rows", .array notedElements)]))
      ["rows", Identifier.arrayItem, "note"] [⟨notedRows, some notedTemplate, notedElements⟩] ∧
    find? [(Identifier.root, notedRoot)] [Identifier.root, "rows", Identifier.arrayItem, "note"] = some notedNote ∧
    ∃ schema, parse "Form" (some (.object [("rows", .array notedElements)])) [(Identifier.root, notedRoot)] = .ok schema ∧
      ∃ n, schema.find? [Identifier.root, "rows", Identifier.arrayItem, "note"] = some (notedNote.movedTo n) := by
  have hsample : (Json.object [("rows", .array notedElements)]).WellFormed := by
    simp [notedElements, Json.WellFormed, Json.EntriesWellFormed, Json.ItemsWellFormed, Distinct, keys]
  have hobjects : ∀ element ∈ notedElements, element.isObject = true := by simp [notedElements, Json.isObject]
  have hmerged : representative (some (.array notedElements)) = some (.object [("x", .int 2), ("y", .null)]) := by rfl
  have hway := notedWay hobjects hmerged
  have hroot : root? [(Identifier.root, notedRoot)] = some notedRoot := root?_singleton _
  obtain ⟨hfind, schema, hparse, hkept⟩ :=
    parse_keeps_custom_iff notedRoot_wellFormed hsample "Form" hroot rfl hway
  refine ⟨notedRoot_wellFormed, hsample, hroot, rfl, hway, hfind, schema, hparse, hkept.mpr ?_⟩
  exact List.forall_mem_singleton.mpr ⟨rfl, notedTemplate, rfl, fun _ => rfl⟩

/-- An array that gets empty loses the note, though all its elements, being none, are objects. -/
theorem not_keeps_custom_emptied : WellFormed [(Identifier.root, notedRoot)] ∧ notedNote.isCustomField = true ∧
    (∀ item ∈ [notedRoot, notedRows, notedTemplate], item.isFieldTypeOverridden = false) ∧
    Item.Way notedNote notedRoot (some (.object [("rows", .array [])])) ["rows", Identifier.arrayItem, "note"]
      [⟨notedRows, some notedTemplate, []⟩] ∧
    ∃ schema, parse "Form" (some (.object [("rows", .array [])])) [(Identifier.root, notedRoot)] = .ok schema ∧
      schema.find? [Identifier.root, "rows", Identifier.arrayItem, "note"] = none := by
  have htemplate : Item.Way notedNote notedRows (some (.array [])) [Identifier.arrayItem, "note"]
      [⟨notedRows, some notedTemplate, []⟩] :=
    .unread ⟨rfl, rfl, rfl⟩ (by simp) rfl rfl (by decide) (.inl rfl) rfl
  refine ⟨notedRoot_wellFormed, rfl, by decide, .field ⟨rfl, rfl, rfl⟩ rfl rfl htemplate, _, parse_object .., ?_⟩
  have hlost : ((parsed "Form" [("rows", .array [])] [(Identifier.root, notedRoot)]).find?
      [Identifier.root, "rows", Identifier.arrayItem, "note"]).isNone = true := by
    decide +kernel
  exact Option.isNone_iff_eq_none.mp hlost

end Schema
end FormSchema
