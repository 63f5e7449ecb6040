import FormSchema.Proofs.Outcome

/-!
Reconciliation with a limit on how many items may lie below each other. The recursion is written once, as what one
item makes of calls for the items below it, and is left without an answer where it would go beyond the limit. A
larger limit changes no answer.
-/
namespace FormSchema
open OrderedMap (keys)

/-- The second gives the answer of the first, if that has one. -/
def Refines {α : Type} (x y : Option α) : Prop := ∀ a, x = some a → y = some a

namespace Refines
variable {α β : Type} {x y : Option α}

theorem refl (x : Option α) : Refines x x := fun _ h => h

theorem map (h : Refines x y) (f : α → β) : Refines (x.map f) (y.map f) := by
  intro b hb
  obtain ⟨a, ha, rfl⟩ := Option.map_eq_some_iff.mp hb
  rw [h a ha, Option.map_some]

theorem bind (h : Refines x y) {f g : α → Option β} (hfg : ∀ a, Refines (f a) (g a)) :
    Refines (x.bind f) (y.bind g) := by
  intro b hb
  obtain ⟨a, ha, hb⟩ := Option.bind_eq_some_iff.mp hb
  rw [h a ha, Option.bind_some]
  exact hfg a b hb

theorem foldlM {f g : β → α → Option β} (h : ∀ acc x, Refines (f acc x) (g acc x)) (xs : List α) (start : β) :
    Refines (xs.foldlM f start) (xs.foldlM g start) := by
  induction xs generalizing start with
  | nil => exact refl _
  | cons x rest ih =>
    rw [List.foldlM_cons, List.foldlM_cons]
    exact (h start x).bind ih

end Refines

namespace Item

abbrev PartialReconciler := Context → ItemSpec → Option Item → Option Json → Option Item

section
variable (calls : PartialReconciler) (ctx : Context)

def addFieldBy (objectPath : String) (level : Schema) (entry : String × Json) : Option Schema :=
  let identifier := Identifier.ofKey entry.1 (keys level)
  (calls ctx (.field entry.1 identifier objectPath) none (some entry.2)).map (OrderedMap.insert level identifier)

def updateFieldBy (objectPath : String) (entries : OrderedMap Json) (level : Schema) (key : String) :
    Option Schema :=
  match level.identifierFor? key, OrderedMap.get? entries key with
  | some identifier, some value =>
    (calls ctx (.field key identifier objectPath) (OrderedMap.get? level identifier) (some value)).map
      (OrderedMap.insert level identifier)
  | _, _ => some level

def levelBy (objectPath : String) (previous : Schema) (entries : OrderedMap Json) : Option Schema := do
  let known := previous.keysOf .sampleKey .sampled
  let kept := dropVanished previous entries
  let grown ← (entries.filter fun entry => !known.contains entry.1).foldlM (addFieldBy calls ctx objectPath) kept
  let updated ← known.foldlM (updateFieldBy calls ctx objectPath entries) grown
  return Schema.placed updated ((keys grown).drop kept.length)

def arrayBy (arrayPath : String) (previous : Schema) (sample : Option Json) : Option Schema :=
  (calls ctx.enterArray (.template arrayPath) (OrderedMap.get? previous Identifier.arrayItem)
    (representative sample)).map templateLevel

def childrenBy (path : String) (kind : FieldType) (children : Schema) (sample : Option Json) : Option Schema :=
  match kind, sample with
  | .array, _ => arrayBy calls ctx path children sample
  | .object, some (.object entries) => levelBy calls ctx path children entries
  | _, _ => some children

def buildBy (spec : ItemSpec) (sample : Option Json) : Option Item :=
  (childrenBy calls ctx spec.sourcePath (spec.kindFor sample) [] sample).map (fresh ctx spec sample)

def refreshBy (path : String) (item : Item) (sample : Option Json) : Option Item :=
  (childrenBy calls ctx path item.fieldType item.children sample).map fun children =>
    (item.withChildren children).recording sample

/-- One item of the recursion, with calls for the items below. -/
def reconcileBy (spec : ItemSpec) (previous : Option Item) (sample : Option Json) : Option Item :=
  match previous with
  | none => buildBy calls ctx spec sample
  | some item =>
    match Decision.between item sample with
    | .keepShape => some (item.recording sample)
    | .rebuild => (buildBy calls ctx (spec.inPlaceOf item) sample).map fun built => built.inPlaceOf item
    | .unchanged => refreshBy calls ctx spec.sourcePath item sample

end

/-- The recursion with at most so many items below each other, without an answer where it goes deeper. -/
def reconcileTo : Nat → PartialReconciler
  | 0 => fun _ _ _ _ => none
  | depth + 1 => reconcileBy (reconcileTo depth)

def Extends (calls more : PartialReconciler) : Prop :=
  ∀ ctx spec previous sample, Refines (calls ctx spec previous sample) (more ctx spec previous sample)

namespace Extends
variable {calls more : PartialReconciler} (h : Extends calls more) (ctx : Context) (path : String)
include h

private theorem addFieldBy (level : Schema) (entry : String × Json) :
    Refines (addFieldBy calls ctx path level entry) (addFieldBy more ctx path level entry) := .map (h _ _ _ _) _

private theorem updateFieldBy (entries : OrderedMap Json) (level : Schema) (key : String) :
    Refines (updateFieldBy calls ctx path entries level key) (updateFieldBy more ctx path entries level key) := by
  rw [Item.updateFieldBy, Item.updateFieldBy]
  cases level.identifierFor? key with
  | none => exact .refl _
  | some identifier =>
    cases OrderedMap.get? entries key with
    | none => exact .refl _
    | some value => exact .map (h _ _ _ _) _

theorem levelBy (previous : Schema) (entries : OrderedMap Json) :
    Refines (levelBy calls ctx path previous entries) (levelBy more ctx path previous entries) :=
  (Refines.foldlM (h.addFieldBy ctx path) _ _).bind fun _ =>
    (Refines.foldlM (h.updateFieldBy ctx path entries) _ _).bind fun _ => .refl _

theorem childrenBy (kind : FieldType) (children : Schema) (sample : Option Json) :
    Refines (childrenBy calls ctx path kind children sample) (childrenBy more ctx path kind children sample) := by
  unfold Item.childrenBy
  split
  · exact .map (h _ _ _ _) _
  · exact h.levelBy ctx path _ _
  · exact .refl _

theorem buildBy (spec : ItemSpec) (sample : Option Json) :
    Refines (buildBy calls ctx spec sample) (buildBy more ctx spec sample) := (h.childrenBy ctx _ _ _ _).map _

/-- What has more answers from its calls has more answers. -/
theorem step : Extends (reconcileBy calls) (reconcileBy more) := by
  intro ctx spec previous sample
  cases previous with
  | none => exact h.buildBy ctx spec sample
  | some item =>
    rw [reconcileBy, reconcileBy]
    cases Decision.between item sample with
    | keepShape => exact .refl _
    | rebuild => exact (h.buildBy ctx _ sample).map _
    | unchanged => exact (h.childrenBy ctx _ _ _ _).map _

end Extends

/-- A larger limit changes no answer. -/
theorem extends_reconcileTo (depth more : Nat) : Extends (reconcileTo depth) (reconcileTo (depth + more)) := by
  induction depth with
  | zero => exact fun _ _ _ _ _ h => nomatch h
  | succ depth ih =>
    rw [Nat.add_right_comm]
    exact ih.step

end Item
end FormSchema
