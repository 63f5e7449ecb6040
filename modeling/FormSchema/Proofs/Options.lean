import FormSchema.Proofs.Reordered
import FormSchema.Proofs.Storable

/-!
What the user has set of an item's options, over the defaults of its kind. However the item is reconciled, the same
options stay over the defaults of the kind that it has then, and nothing of the defaults before is left.
-/
namespace FormSchema
open OrderedMap (keys Distinct)

namespace FieldType

private theorem mem_all (kind : FieldType) : kind ∈ all := by cases kind <;> decide

private theorem wellFormed_of_default {kind : FieldType} {name : String} {value : Json}
    (h : OrderedMap.get? kind.defaults name = some value) : value.WellFormed :=
  (Json.wellFormed_object_iff.mp (Item.storableOptions_defaults kind).wellFormed).2 _ (OrderedMap.mem_of_get?_eq_some h)

private theorem distinct_defaults (kind : FieldType) : Distinct kind.defaults :=
  (Json.wellFormed_object_iff.mp (Item.storableOptions_defaults kind).wellFormed).1

end FieldType

namespace Item

/-- Options whose values no kind has for them among its defaults. -/
def OwnOptions (options : OrderedMap Json) : Prop :=
  ∀ option ∈ options, ∀ kind : FieldType, (OrderedMap.get? kind.defaults option.1).any option.2.same = false

instance (options : OrderedMap Json) : Decidable (OwnOptions options) :=
  decidable_of_iff (∀ option ∈ options, ∀ kind ∈ FieldType.all,
    (OrderedMap.get? kind.defaults option.1).any option.2.same = false)
    ⟨fun h option hoption kind => h option hoption kind (FieldType.mem_all kind),
      fun h option hoption kind _ => h option hoption kind⟩

/-- Over other options, those lie that differ from the defaults of the kind. -/
private theorem get?_overlayOptions (kind : FieldType) {options : OrderedMap Json} (h : Distinct options)
    (base : OrderedMap Json) (name : String) : OrderedMap.get? (overlayOptions kind options base) name =
      ((OrderedMap.get? options name).filter fun value =>
        !(OrderedMap.get? kind.defaults name).any value.same).or (OrderedMap.get? base name) := by
  induction options generalizing base with
  | nil => rfl
  | cons option rest ih =>
    obtain ⟨key, value⟩ := option
    obtain ⟨hfresh, hrest⟩ := Distinct.cons_iff.mp h
    rw [overlayOptions, List.foldl_cons]
    show OrderedMap.get? (overlayOptions kind rest _) name = _
    rw [ih hrest, OrderedMap.get?]
    by_cases hname : key = name
    · subst hname
      rw [(OrderedMap.get?_eq_none_iff ..).mpr hfresh, if_pos rfl, Option.filter_none, Option.none_or]
      split
      · rename_i hdefault
        simp [Option.filter, hdefault]
      · rename_i hdefault
        simp [Option.filter, hdefault, OrderedMap.get?_insert]
    · rw [if_neg hname]
      split
      · rfl
      · rw [OrderedMap.get?_insert, if_neg (Ne.symm hname)]

private theorem distinct_overlayOptions (kind : FieldType) (options : OrderedMap Json) {base : OrderedMap Json}
    (h : Distinct base) : Distinct (overlayOptions kind options base) := by
  refine List.foldlRecOn _ _ h fun base hbase option _ => ?_
  split
  · exact hbase
  · exact OrderedMap.distinct_insert hbase ..

/-- A sense in which values are equal, to the letter or up to the order of keys: equal values are the same as, or differ
from, the same defaults. -/
structure Likeness (like : Json → Json → Prop) : Prop where
  refl : ∀ {kind : FieldType} {name : String} {default : Json},
    OrderedMap.get? kind.defaults name = some default → like default default
  same : ∀ {kind : FieldType} {name : String} {default a b : Json},
    OrderedMap.get? kind.defaults name = some default → like a b → a.same default = b.same default

private theorem likeness_eq : Likeness Eq := ⟨fun _ => rfl, fun _ heq => by rw [heq]⟩

private theorem likeness_reordered : Likeness Json.Reordered where
  refl hdefault := .refl (FieldType.wellFormed_of_default hdefault)
  same {_ _ default a b} hdefault hab := by
    have hwell := FieldType.wellFormed_of_default hdefault
    rw [Bool.eq_iff_iff]
    refine ⟨fun h => (hab.euclidean ⟨hab.left, hwell, h⟩).same, fun h => ?_⟩
    have hba := hab.euclidean (.refl hab.left)
    exact (hba.euclidean ⟨hab.right, hwell, h⟩).same

namespace Likeness
variable {like : Json → Json → Prop} {name : String} {value : Json}

private theorem rel_default (h : Likeness like) (kind : FieldType) (name : String) :
    Option.Rel like (OrderedMap.get? kind.defaults name) (OrderedMap.get? kind.defaults name) := by
  cases hdefault : OrderedMap.get? kind.defaults name with
  | none => exact .none
  | some default => exact .some (h.refl hdefault)

/-- No kind's default is taken for a user's option. -/
private theorem differs (h : Likeness like) {options : OrderedMap Json} (hown : OwnOptions options) {option : Json}
    (hoption : OrderedMap.get? options name = some option) (hvalue : like value option) (kind : FieldType) :
    (OrderedMap.get? kind.defaults name).any value.same = false := by
  have hdiffers := hown (name, option) (OrderedMap.mem_of_get?_eq_some hoption) kind
  cases hdefault : OrderedMap.get? kind.defaults name with
  | none => rfl
  | some default =>
    rw [hdefault, Option.any_some] at hdiffers
    rw [Option.any_some, h.same hdefault hvalue]
    exact hdiffers

/-- A kind's own default is known again. -/
theorem agrees (h : Likeness like) {kind : FieldType} {default : Json}
    (hdefault : OrderedMap.get? kind.defaults name = some default) (hvalue : like value default) :
    (OrderedMap.get? kind.defaults name).any value.same = true := by
  rw [hdefault, Option.any_some, h.same hdefault hvalue]
  exact (Json.Reordered.refl (FieldType.wellFormed_of_default hdefault)).same

end Likeness

/-- The options of the item are these over the defaults of its kind, up to the order of their names. -/
structure Carries (like : Json → Json → Prop) (options : OrderedMap Json) (item : Item) : Prop where
  distinct : Distinct item.props
  overlaid : ∀ name, Option.Rel like (OrderedMap.get? item.props name)
    ((OrderedMap.get? options name).or (OrderedMap.get? item.fieldType.defaults name))

/-- Laid over the defaults of the kind, any options are carried. An object has no defaults to tell them from. -/
private theorem carries_overlaid {options : OrderedMap Json} (h : Distinct options) (item : Item) :
    { item with props := overlayOptions .object options item.fieldType.defaults }.Carries Eq options where
  distinct := distinct_overlayOptions _ _ (FieldType.distinct_defaults _)
  overlaid name := by
    rw [get?_overlayOptions _ h]
    have hall : (OrderedMap.get? options name).filter (fun _ => true) = OrderedMap.get? options name := by
      cases OrderedMap.get? options name <;> rfl
    show Option.Rel Eq (((OrderedMap.get? options name).filter fun _ => true).or _)
      ((OrderedMap.get? options name).or (OrderedMap.get? item.fieldType.defaults name))
    rw [hall]
    cases (OrderedMap.get? options name).or (OrderedMap.get? item.fieldType.defaults name) with
    | none => exact .none
    | some => exact .some rfl

/-- What an item is reconciled with. -/
structure Call where
  ctx : Context
  spec : ItemSpec
  sample : Option Json

/-- The item after one call after the other. -/
def afterCalls (item : Item) (calls : List Call) : Item :=
  calls.foldl (fun item call => reconcile call.ctx call.spec (some item) call.sample) item

section
variable {like : Json → Json → Prop} {options : OrderedMap Json} {item : Item}

/-- Over the defaults of another kind come the user's options, and none of the defaults before. -/
private theorem Carries.get?_overlay (hlike : Likeness like) (hown : OwnOptions options) (h : item.Carries like options)
    (kind : FieldType) (name : String) :
    Option.Rel like (OrderedMap.get? (overlayOptions item.fieldType item.props kind.defaults) name)
      ((OrderedMap.get? options name).or (OrderedMap.get? kind.defaults name)) := by
  rw [get?_overlayOptions _ h.distinct]
  have hrel := h.overlaid name
  cases hoption : OrderedMap.get? options name with
  | some option =>
    rw [hoption, Option.some_or] at hrel
    obtain ⟨value, hvalue, hlikes⟩ := Json.exists_left_of_rel hrel
    rw [hvalue, Option.filter_some, hlike.differs hown hoption hlikes]
    exact .some hlikes
  | none =>
    rw [hoption, Option.none_or] at hrel
    rw [Option.none_or]
    generalize OrderedMap.get? item.props name = value at hrel ⊢
    generalize hdefault : OrderedMap.get? item.fieldType.defaults name = default at hrel ⊢
    cases hrel with
    | none => exact hlike.rel_default kind name
    | some hlikes =>
      rw [← hdefault, Option.filter_some, hlike.agrees hdefault hlikes]
      exact hlike.rel_default kind name

/-- An item that is built anew has the options of its own kind, or lays them over the defaults of another one. -/
private theorem rebuild_props (ctx : Context) (spec : ItemSpec) (item : Item) (sample : Option Json) :
    (rebuild ctx spec item sample).props =
      if (rebuild ctx spec item sample).fieldType = item.fieldType then item.props
      else overlayOptions item.fieldType item.props (rebuild ctx spec item sample).fieldType.defaults := by
  rw [rebuild, build_eq]
  rfl

/-- A call keeps the options and the kind of an item, or lays the options over the defaults of another kind. -/
theorem Carries.reconcile (hlike : Likeness like) (hown : OwnOptions options) (h : item.Carries like options)
    (ctx : Context) (spec : ItemSpec) (sample : Option Json) :
    (reconcile ctx spec (some item) sample).Carries like options := by
  by_cases hfrozen : item.Frozen sample
  · rw [reconcile_of_frozen hfrozen]
    exact ⟨h.distinct, h.overlaid⟩
  · by_cases hmatches : item.Matches sample
    · rw [reconcile_of_matches hmatches]
      exact ⟨h.distinct, h.overlaid⟩
    · rw [reconcile_of_changed hfrozen hmatches]
      have hprops := rebuild_props ctx spec item sample
      generalize rebuild ctx spec item sample = built at hprops ⊢
      by_cases hkind : built.fieldType = item.fieldType
      · rw [if_pos hkind] at hprops
        exact ⟨hprops ▸ h.distinct, fun name => by rw [hprops, hkind]; exact h.overlaid name⟩
      · rw [if_neg hkind] at hprops
        exact ⟨hprops ▸ distinct_overlayOptions _ _ (FieldType.distinct_defaults _),
          fun name => by rw [hprops]; exact h.get?_overlay hlike hown _ name⟩

private theorem Carries.afterCalls (hlike : Likeness like) (hown : OwnOptions options) (h : item.Carries like options)
    (calls : List Call) : (item.afterCalls calls).Carries like options := by
  induction calls generalizing item with
  | nil => exact h
  | cons call calls ih => exact ih (h.reconcile hlike hown ..)

end

/-- However often an item is reconciled, with whatever samples, the options that the user has set stay over the
defaults of the kind that the item comes to have, if no kind has one of them among its defaults. -/
theorem carries_afterCalls {options : OrderedMap Json} (hown : OwnOptions options) (item : Item) (calls : List Call) :
    (item.Carries Eq options → (item.afterCalls calls).Carries Eq options) ∧
    (item.Carries Json.Reordered options → (item.afterCalls calls).Carries Json.Reordered options) :=
  ⟨fun h => h.afterCalls likeness_eq hown calls, fun h => h.afterCalls likeness_reordered hown calls⟩

def ownOptions : OrderedMap Json :=
  [("placeholderText", .string "Your age"), ("isSpellCheck", .bool true), ("options", .array [.string "old"]),
    ("minDate", .null)]

def annotated : Item :=
  let built := build { widget := "Form" } (.field "age" "age" SourcePath.root) (some (.string "old"))
  { built with props := overlayOptions .object ownOptions built.fieldType.defaults }

def reshapes : List Call :=
  let call (spec : ItemSpec) (sample : Option Json) : Call := ⟨{ widget := "Form" }, spec, sample⟩
  let spec := ItemSpec.field "age" "age" SourcePath.root
  [call spec (some (.int 42)), call spec none, call spec (some (.array [.string "old"])), call spec (some .null),
    call spec (some (.object [("iconAlign", .null)])),
    call { spec with fieldType := some .datepicker } (some (.bool true))]

theorem carries_afterCalls_annotated : OwnOptions ownOptions ∧ annotated.Carries Eq ownOptions ∧
    (annotated.afterCalls reshapes).Carries Eq ownOptions := by
  have hown : OwnOptions ownOptions := by decide
  have hcarries : annotated.Carries Eq ownOptions := carries_overlaid (by decide) _
  exact ⟨hown, hcarries, (carries_afterCalls hown annotated reshapes).1 hcarries⟩

end Item
end FormSchema
