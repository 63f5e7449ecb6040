import FormSchema.Proofs.Outcome
import FormSchema.Proofs.Descent

namespace FormSchema
open OrderedMap (keys)

namespace Item

/-- The item with a new one in the place that identifiers lead to from it. -/
def replaced (item new : Item) : List String → Item
  | [] => new
  | identifier :: rest => item.withChildren (Schema.replace item.children new (identifier :: rest))

end Item

namespace Schema

private theorem replace_cons (level : Schema) (new : Item) (identifier : String) (rest : List String) :
    level.replace new (identifier :: rest) = OrderedMap.modify level identifier fun item => item.replaced new rest := by
  cases rest <;> rfl

@[simp] theorem keys_replace (level : Schema) (new : Item) (names : List String) :
    keys (level.replace new names) = keys level := by
  cases names with
  | nil => rfl
  | cons identifier rest => rw [replace_cons, OrderedMap.keys_modify]

theorem get?_replace (level : Schema) (new : Item) (identifier : String) (rest : List String) (other : String) :
    OrderedMap.get? (level.replace new (identifier :: rest)) other =
      if other = identifier then (OrderedMap.get? level identifier).map fun item => item.replaced new rest
      else OrderedMap.get? level other := by
  rw [replace_cons, OrderedMap.get?_modify]

end Schema

namespace Item
variable {item new : Item}

/-- An item on the way has the new one below it. At the end of the way it is the new one. -/
theorem descend_replaced_append (way rest : List String) :
    (item.replaced new (way ++ rest)).descend way = (item.descend way).map fun found => found.replaced new rest := by
  induction way generalizing item with
  | nil => rfl
  | cons identifier way ih =>
    rw [descend_cons_eq, descend_cons_eq]
    show Option.bind (OrderedMap.get? (Schema.replace item.children new (identifier :: (way ++ rest))) identifier) _ = _
    rw [Schema.get?_replace, if_pos rfl]
    cases OrderedMap.get? item.children identifier with
    | none => rfl
    | some child => exact ih

/-- Neither on the way nor below its end, nothing changes. -/
theorem descend_replaced_of_not_prefix {names way : List String} (hbelow : ¬ names <+: way) (habove : ¬ way <+: names) :
    (item.replaced new names).descend way = item.descend way := by
  induction names generalizing item way with
  | nil => exact absurd List.nil_prefix hbelow
  | cons identifier names ih =>
    cases way with
    | nil => exact absurd List.nil_prefix habove
    | cons other way =>
      rw [descend_cons_eq, descend_cons_eq]
      show Option.bind (OrderedMap.get? (Schema.replace item.children new (identifier :: names)) other) _ = _
      rw [Schema.get?_replace]
      split
      · rename_i heq
        subst heq
        rw [List.cons_prefix_cons, not_and] at hbelow habove
        cases OrderedMap.get? item.children other with
        | none => rfl
        | some child => exact ih (hbelow rfl) (habove rfl)
      · rfl

private theorem sampleKey_replaced {names : List String} {old : Item} (h : item.descend names = some old)
    (hkey : new.sampleKey = old.sampleKey) : (item.replaced new names).sampleKey = item.sampleKey := by
  cases names with
  | nil =>
    obtain rfl := Option.some.inj h
    exact hkey
  | cons => rfl

/-- Source paths are told by the keys on the way, which stay if the new item has the key of the old one. -/
theorem sourcePathFrom_replaced {names : List String} {old : Item} (h : item.descend names = some old)
    (hkey : new.sampleKey = old.sampleKey) (base : String) :
    Schema.sourcePathFrom (item.replaced new names).children base names =
      Schema.sourcePathFrom item.children base names := by
  induction names generalizing item base with
  | nil => rfl
  | cons identifier rest ih =>
    obtain ⟨child, hchild, hbelow⟩ := exists_child_of_descend h
    show Schema.sourcePathFrom (Schema.replace item.children new (identifier :: rest)) base _ = _
    have hstep : Schema.sourceStep identifier (child.replaced new rest) = Schema.sourceStep identifier child := by
      rw [Schema.sourceStep, Schema.sourceStep, sampleKey_replaced hbelow hkey]
    rw [Schema.sourcePathFrom, Schema.sourcePathFrom, Schema.get?_replace, if_pos rfl, hchild]
    dsimp only [Option.map_some]
    rw [hstep, ih hbelow]

/-- The way down to an item gives its source path too. -/
theorem exists_sourcePathFrom {names : List String} {found : Item} (h : item.descend names = some found)
    (base : String) : ∃ source, Schema.sourcePathFrom item.children base names = some source := by
  induction names generalizing item base with
  | nil => exact ⟨base, rfl⟩
  | cons identifier rest ih =>
    obtain ⟨child, hchild, hbelow⟩ := exists_child_of_descend h
    rw [Schema.sourcePathFrom, hchild]
    exact ih hbelow _

/-- Of two items put in one place, the later one counts. -/
theorem replaced_replaced (item first second : Item) (names : List String) :
    (item.replaced first names).replaced second names = item.replaced second names := by
  induction names generalizing item with
  | nil => rfl
  | cons identifier rest ih =>
    show item.withChildren (Schema.replace (Schema.replace item.children first (identifier :: rest)) second
      (identifier :: rest)) = _
    rw [Schema.replace_cons, Schema.replace_cons, OrderedMap.modify_modify]
    simp only [ih, ← Schema.replace_cons]
    rfl

end Item

namespace Schema
variable {level : Schema} {new : Item}

private theorem find?_replace_append (way rest : List String) :
    (level.replace new (way ++ rest)).find? way = (level.find? way).map fun found => found.replaced new rest := by
  cases way with
  | nil => rfl
  | cons identifier way =>
    rw [find?_cons, find?_cons, List.cons_append, get?_replace, if_pos rfl]
    cases OrderedMap.get? level identifier with
    | none => rfl
    | some item => exact Item.descend_replaced_append way rest

theorem find?_replace_self {names : List String} {old : Item} (h : level.find? names = some old) :
    (level.replace new names).find? names = some new := by
  have hat : (level.replace new (names ++ [])).find? names =
      (level.find? names).map fun found => found.replaced new [] := find?_replace_append names []
  rw [List.append_nil, h] at hat
  exact hat

private theorem find?_replace_of_not_prefix {names way : List String} (hbelow : ¬ names <+: way)
    (habove : ¬ way <+: names) :
    (level.replace new names).find? way = level.find? way := by
  cases names with
  | nil => exact absurd List.nil_prefix hbelow
  | cons identifier names =>
    cases way with
    | nil => exact absurd List.nil_prefix habove
    | cons other way =>
      rw [find?_cons, find?_cons, get?_replace]
      split
      · rename_i heq
        subst heq
        rw [List.cons_prefix_cons, not_and] at hbelow habove
        cases OrderedMap.get? level other with
        | none => rfl
        | some item => exact Item.descend_replaced_of_not_prefix (hbelow rfl) (habove rfl)
      · rfl

theorem replace_replace (level : Schema) (first second : Item) (names : List String) :
    (level.replace first names).replace second names = level.replace second names := by
  cases names with
  | nil => rfl
  | cons identifier rest =>
    rw [replace_cons, replace_cons, OrderedMap.modify_modify]
    simp only [Item.replaced_replaced, ← replace_cons]

/-- Two schemas that differ in the item that identifiers lead to, and apart from it only in the levels below the items
on the way to it, each of them in the child on the way. -/
structure SameBut (names : List String) (before after : Schema) : Prop where
  order : keys after = keys before
  ancestors : ∀ way identifier rest parent, names = way ++ identifier :: rest → before.find? way = some parent →
    ∃ children, after.find? way = some (parent.withChildren children) ∧ keys children = keys parent.children ∧
      ∀ other, other ≠ identifier → OrderedMap.get? children other = OrderedMap.get? parent.children other
  others : ∀ way, ¬ names <+: way → ¬ way <+: names → after.find? way = before.find? way

/-- Putting an item in the place of another one changes nothing else. -/
theorem sameBut_replace (level : Schema) (new : Item) (names : List String) :
    SameBut names level (level.replace new names) where
  order := keys_replace level new names
  ancestors := by
    rintro way identifier rest parent rfl hparent
    refine ⟨Schema.replace parent.children new (identifier :: rest), ?_, keys_replace .., fun other hother => ?_⟩
    · rw [find?_replace_append, hparent]
      rfl
    · rw [get?_replace, if_neg hother]
  others _ hbelow habove := find?_replace_of_not_prefix hbelow habove

end Schema
end FormSchema
