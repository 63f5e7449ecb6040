import FormSchema.Proofs.Regular
import FormSchema.Proofs.Run

namespace FormSchema

namespace Schema

theorem exists_parent_of_find? {level : Schema} {first next : String} {rest : List String} {item : Item}
    (h : level.find? (first :: next :: rest) = some item) :
    ∃ parent, OrderedMap.get? level first = some parent ∧ find? parent.children (next :: rest) = some item := by
  cases hparent : OrderedMap.get? level first with
  | none => simp [find?, hparent] at h
  | some parent => exact ⟨parent, rfl, by simpa [find?, hparent] using h⟩

/-- A regular level whose items are regular all the way down. -/
structure Sound (owner : Option FieldType) (level : Schema) : Prop where
  regular : level.Regular owner
  items : ∀ entry ∈ level, entry.2.Everywhere Item.Sound

namespace Sound
variable {owner : Option FieldType} {level : Schema}

theorem of_get? (h : level.Sound owner) {identifier : String} {item : Item}
    (hitem : OrderedMap.get? level identifier = some item) :
    item.Everywhere Item.Sound ∧ item.isCustomField = false :=
  have hmem := OrderedMap.mem_of_get?_eq_some hitem
  ⟨h.items _ hmem, h.regular.sampled _ hmem⟩

/-- The level below an item. -/
theorem below {item : Item} (h : item.Everywhere Item.Sound) :
    Sound (some item.fieldType) item.children := ⟨h.here.level, h.inside⟩

theorem wellFormed (h : level.Sound owner) : level.WellFormed :=
  ⟨h.regular.keyed, fun entry hentry => (h.items entry hentry).imp fun _ hitem => hitem.level.keyed⟩

/-- An item takes the place of another one with its identity. -/
theorem modify (h : level.Sound owner) {identifier : String} {old : Item} {change : Item → Item}
    (hold : OrderedMap.get? level identifier = some old) (hsame : (change old).SameIdentity old)
    (hposition : (change old).position = old.position) (hnew : (change old).Everywhere Item.Sound) :
    Sound owner (OrderedMap.modify level identifier change) := by
  have hdistinct := h.regular.keyed.distinct
  rw [hdistinct.modify_eq_map hold]
  constructor
  case regular =>
    apply h.regular.map
    case hkey => exact fun entry _ => OrderedMap.fst_changed identifier _ entry
    case hfield => exact hdistinct.rel_changed hold (fun _ => ⟨rfl, rfl, rfl⟩) hsame
    case hposition =>
      exact hdistinct.rel_changed hold (r := fun a b => a.position = b.position) (fun _ => rfl) hposition
  case items =>
    intro entry hentry
    obtain ⟨other, hother, rfl⟩ := List.mem_map.mp hentry
    split
    · exact hnew
    · exact h.items other hother

theorem find? (h : level.Sound owner) {identifiers : List String} {item : Item}
    (hitem : level.find? identifiers = some item) :
    item.Everywhere Item.Sound ∧ item.isCustomField = false := by
  induction identifiers generalizing owner level with
  | nil => cases hitem
  | cons identifier rest ih =>
    cases rest with
    | nil => exact h.of_get? hitem
    | cons next rest =>
      obtain ⟨parent, hparent, hbelow⟩ := exists_parent_of_find? hitem
      exact ih (below (h.of_get? hparent).1) hbelow

/-- The levels on the way to an item that is replaced stay regular. -/
theorem replace (h : level.Sound owner) {identifiers : List String} {item replacement : Item}
    (hitem : level.find? identifiers = some item) (hsame : replacement.SameIdentity item)
    (hposition : replacement.position = item.position) (hnew : replacement.Everywhere Item.Sound) :
    Sound owner (level.replace replacement identifiers) := by
  induction identifiers generalizing owner level with
  | nil => exact h
  | cons identifier rest ih =>
    cases rest with
    | nil => exact h.modify hitem hsame hposition hnew
    | cons next rest =>
      obtain ⟨parent, hparent, hchild⟩ := exists_parent_of_find? hitem
      have hsound := (h.of_get? hparent).1
      have hbelow := ih (below hsound) hchild
      exact h.modify hparent ⟨rfl, rfl, rfl⟩ rfl (.intro ⟨hbelow.regular, hsound.here.record⟩ hbelow.items)

end Sound
end Schema

namespace Item

theorem retyped_sameIdentity (ctx : Context) (source : String) (kind : FieldType) (item : Item) :
    (item.retyped ctx source kind).SameIdentity item :=
  ⟨build_identifier .., build_sampleKey .., build_isCustomField ..⟩

theorem everywhere_sound_build {sample : Option Json} (hsample : WellFormedSample sample) (ctx : Context)
    (spec : ItemSpec) : (build ctx spec sample).Everywhere Sound := by
  rw [← reconcile_none]
  exact preserved_sound.everywhere_reconcile hsample (by simp) trivial ctx

theorem everywhere_sound_retyped {item : Item} (h : item.Everywhere Sound) (hcustom : item.isCustomField = false)
    (ctx : Context) (source : String) (kind : FieldType) : (item.retyped ctx source kind).Everywhere Sound := by
  have hsample : WellFormedSample (if item.isCustomField then some kind.standIn else item.sourceData) := by
    rw [hcustom]
    exact h.here.record
  have hbuilt := everywhere_sound_build hsample ctx
  exact .intro ⟨(hbuilt _).here.level, (hbuilt _).here.record⟩ (hbuilt _).inside

end Item

theorem Schema.sound_nil : Schema.Sound none [] := ⟨⟨.nil none, fun _ => .inl rfl, by simp⟩, by simp⟩

/-- Parsing an object makes a regular schema of one. -/
theorem Schema.Sound.parsed {schema : Schema} (h : schema.Sound none) {entries : OrderedMap Json}
    (hsample : (Json.object entries).WellFormed) (widget : String) :
    Schema.Sound none (schema.parsed widget entries) := by
  have hwell := wellFormedSample_some.mpr hsample
  have hroot := h.regular.reconcile_get? { widget } rootSpec rfl (some (.object entries))
  have hsound : (Item.reconcile { widget } rootSpec schema.root? (some (.object entries))).Everywhere Item.Sound :=
    Item.preserved_sound.everywhere_reconcile hwell (fun item hitem => ⟨(h.of_get? hitem).1, trivial⟩) trivial _
  refine ⟨⟨.singleton hroot.1 hroot.2 (.inl ⟨rfl, rfl⟩) rfl, fun _ => .inr rfl, by simp⟩, ?_⟩
  intro entry hentry
  obtain rfl := List.mem_singleton.mp hentry
  exact Item.preserved_sound.everywhere_movedTo hsound 0

/-- The schema is regular after every run. -/
theorem run_regular {steps : List Step} (h : ∀ step ∈ steps, WellFormedSample step.sample) :
    (run steps).Sound none := by
  refine run_induction Schema.sound_nil (fun schema widget entries hsound hsample => hsound.parsed hsample widget)
    (fun schema identifiers item ctx source kind hsound hitem => ?_) h
  obtain ⟨hbelow, hcustom⟩ := hsound.find? hitem
  exact hsound.replace hitem (Item.retyped_sameIdentity ..) rfl (Item.everywhere_sound_retyped hbelow hcustom ..)

def retypedRun : List Step :=
  [.parse "Form" (some (.object [("tags", .array [.int 1])])),
    .retype "Form" .array "schema.__root_schema__.children.tags",
    .compute "Form" 50 (some (.object [("tags", .null), ("a b", .string "x")])) []]

theorem run_regular_retypedRun :
    (∀ step ∈ retypedRun, WellFormedSample step.sample) ∧ (run retypedRun).Sound none := by
  have hsamples : ∀ step ∈ retypedRun, WellFormedSample step.sample := by
    simp [retypedRun, Step.sample, WellFormedSample, Json.WellFormed, Json.EntriesWellFormed,
      Json.ItemsWellFormed, OrderedMap.Distinct, OrderedMap.keys]
  exact ⟨hsamples, run_regular hsamples⟩

end FormSchema
