import FormSchema.Compute
import FormSchema.Proofs.Bindings
import FormSchema.Proofs.EraseDups

/-!
The list of properties that hold bindings. It is told from a schema and the list before: the default
values that are bindings, and of the other paths those that lead to no item or to one that is there.
-/
namespace FormSchema
open OrderedMap (keys Distinct)

namespace Item

def Binds (item : Item) : Prop :=
  ∃ before inside after, item.defaultValue = some (.string (before ++ "\x7b\x7b" ++ inside ++ "\x7d\x7d" ++ after))

theorem hasBinding_iff {item : Item} : item.hasBinding = true ↔ item.Binds := by
  rw [hasBinding, Option.any_eq_true]
  constructor
  · rintro ⟨text, htext, hbinding⟩
    obtain ⟨value, hvalue, hstring⟩ := Option.bind_eq_some_iff.mp htext
    obtain ⟨before, inside, after, rfl⟩ := Binding.isBinding_iff.mp hbinding
    refine ⟨before, inside, after, ?_⟩
    cases value <;> cases hstring
    exact hvalue
  · rintro ⟨before, inside, after, hvalue⟩
    exact ⟨_, by rw [hvalue]; rfl, Binding.isBinding_iff.mpr ⟨before, inside, after, rfl⟩⟩

theorem bindingPaths_eq (path : String) (item : Item) : item.bindingPaths path =
    (if item.hasBinding then [path ++ "." ++ defaultValueProperty] else []) ++
      item.children.flatMap fun entry => entry.2.bindingPaths (ItemPath.child path entry.1) := by
  have hlevel : ∀ level : Schema, childBindingPaths path level =
      level.flatMap fun entry => entry.2.bindingPaths (ItemPath.child path entry.1) := by
    intro level
    induction level with
    | nil => rfl
    | cons entry rest ih => rw [childBindingPaths, ih, List.flatMap_cons]
  rw [← hlevel]
  cases item
  rfl

/-- Each item below an item has its path, and is listed under it if it holds a binding. -/
theorem mem_bindingPaths {item : Item} (h : item.Everywhere fun item => Distinct item.children) {path entry : String} :
    entry ∈ item.bindingPaths path ↔ ∃ identifiers found, item.descend identifiers = some found ∧
      found.Binds ∧ entry = identifiers.foldl ItemPath.child path ++ "." ++ defaultValueProperty := by
  induction h generalizing path with
  | intro here inside ih =>
    rename_i item
    rw [bindingPaths_eq, List.mem_append, List.mem_flatMap]
    constructor
    · rintro (hown | ⟨child, hchild, hbelow⟩)
      · split at hown
        · rename_i hbinding
          exact ⟨[], item, rfl, hasBinding_iff.mp hbinding, List.mem_singleton.mp hown⟩
        · cases hown
      · obtain ⟨identifiers, found, hfound, hbinds, rfl⟩ := (ih child hchild).mp hbelow
        exact ⟨child.1 :: identifiers, found, (descend_cons (here.get?_of_mem hchild) _).trans hfound, hbinds, rfl⟩
    · rintro ⟨identifiers, found, hfound, hbinds, rfl⟩
      cases identifiers with
      | nil =>
        cases hfound
        rw [if_pos (hasBinding_iff.mpr hbinds)]
        exact .inl (List.mem_singleton_self _)
      | cons identifier rest =>
        obtain ⟨child, hchild, hrest⟩ := exists_child_of_descend hfound
        have hmem := OrderedMap.mem_of_get?_eq_some hchild
        exact .inr ⟨_, hmem, (ih _ hmem).mpr ⟨rest, found, hrest, hbinds, rfl⟩⟩

end Item

namespace Schema

/-- The last full stop ends the path of an item. -/
private theorem splitProperty?_eq_some_iff {path itemPath property : String} :
    splitProperty? path = some (itemPath, property) ↔
      path = itemPath ++ "." ++ property ∧ '.' ∉ property.toList := by
  constructor
  · intro h
    rw [splitProperty?] at h
    have hchars := List.takeWhile_append_dropWhile (p := fun c => decide (c ≠ '.')) (l := path.toList.reverse)
    have hnodot := List.all_takeWhile (p := fun c => decide (c ≠ '.')) (l := path.toList.reverse)
    have hdot := List.head?_dropWhile_not (fun c => decide (c ≠ '.')) path.toList.reverse
    generalize path.toList.reverse.takeWhile (fun c => decide (c ≠ '.')) = after at *
    cases hdrop : path.toList.reverse.dropWhile (fun c => decide (c ≠ '.')) with
    | nil =>
      simp only [hdrop] at h
      cases h
    | cons c before =>
      simp only [hdrop] at h
      obtain ⟨rfl, rfl⟩ := Prod.mk.inj (Option.some.inj h)
      rw [hdrop] at hchars hdot
      have hc : decide (c ≠ '.') = false := hdot
      obtain rfl : c = '.' := by simpa using hc
      refine ⟨String.toList_inj.mp ?_, ?_⟩
      · rw [← List.reverse_reverse path.toList, ← hchars]
        simp
      · rw [String.toList_ofList, List.mem_reverse]
        intro hmem
        simpa using List.all_eq_true.mp hnodot '.' hmem
  · rintro ⟨rfl, hproperty⟩
    have hchars : (itemPath ++ "." ++ property).toList.reverse =
        property.toList.reverse ++ '.' :: itemPath.toList.reverse := by simp
    have hnodot : ∀ c ∈ property.toList.reverse, decide (c ≠ '.') = true := by
      intro c hc
      simpa using fun heq : c = '.' => hproperty (heq ▸ List.mem_reverse.mp hc)
    rw [splitProperty?, hchars]
    rw [List.dropWhile_append_of_pos hnodot, List.takeWhile_append_of_pos hnodot]
    simp

/-- A path is that of one property of one item at most. -/
theorem property_eq {itemPath otherPath property other : String} (hproperty : '.' ∉ property.toList)
    (hother : '.' ∉ other.toList) (h : itemPath ++ "." ++ property = otherPath ++ "." ++ other) :
    itemPath = otherPath ∧ property = other := by
  have hsplit := splitProperty?_eq_some_iff.mpr ⟨h, hother⟩
  rw [splitProperty?_eq_some_iff.mpr ⟨rfl, hproperty⟩] at hsplit
  exact Prod.mk.inj (Option.some.inj hsplit)

private theorem isItemProperty_iff {path : String} :
    isItemProperty path = true ↔ ∃ rest, path = ItemPath.schemaWord ++ "." ++ rest := by
  rw [isItemProperty, List.isPrefixOf_iff_prefix]
  constructor
  · rintro ⟨rest, hrest⟩
    exact ⟨.ofList rest, String.toList_inj.mp (by rw [String.toList_append, String.toList_ofList, hrest])⟩
  · rintro ⟨rest, rfl⟩
    exact ⟨rest.toList, String.toList_append.symm⟩

/-- A path of the schema is kept for a property of an item that is there, but not for its default value. -/
theorem keepsPath_iff {schema : Schema} {path : String} (h : isItemProperty path = true) :
    schema.keepsPath path = true ↔ ∃ itemPath property item, path = itemPath ++ "." ++ property ∧
      '.' ∉ property.toList ∧ property ≠ defaultValueProperty ∧ schema.itemAt itemPath = .ok item := by
  rw [keepsPath, h, Bool.not_true, Bool.false_or]
  constructor
  · intro hkeeps
    cases hsplit : splitProperty? path with
    | none =>
      rw [hsplit] at hkeeps
      cases hkeeps
    | some parts =>
      obtain ⟨itemPath, property⟩ := parts
      obtain ⟨hpath, hproperty⟩ := splitProperty?_eq_some_iff.mp hsplit
      simp only [hsplit, Bool.and_eq_true, decide_eq_true_eq] at hkeeps
      obtain ⟨hother, hitem⟩ := hkeeps
      cases hat : schema.itemAt itemPath with
      | error fault =>
        rw [hat] at hitem
        cases hitem
      | ok item => exact ⟨itemPath, property, item, hpath, hproperty, hother, hat⟩
  · rintro ⟨itemPath, property, item, hpath, hproperty, hother, hat⟩
    rw [splitProperty?_eq_some_iff.mpr ⟨hpath, hproperty⟩]
    simp only [hat, decide_eq_true hother, Except.toOption, Option.isSome_some, Bool.and_self]

private theorem keepsPath_of_other {schema : Schema} {path : String} (h : isItemProperty path = false) :
    schema.keepsPath path = true := by
  rw [keepsPath, h]
  rfl

theorem itemAt_eq_ok_iff {schema : Schema} {path : String} {item : Item} :
    schema.itemAt path = .ok item ↔
      ∃ identifiers, ItemPath.identifiers path = .ok identifiers ∧ schema.find? identifiers = some item := by
  rw [itemAt]
  cases ItemPath.identifiers path with
  | error fault => simp [bind, Except.bind]
  | ok identifiers =>
    simp only [bind, Except.bind, Except.ok.injEq, exists_eq_left']
    cases schema.find? identifiers with
    | none => simp
    | some found => simp

/-- Only paths that start like those of properties lead to an item. -/
theorem isItemProperty_of_itemAt {schema : Schema} {itemPath : String} {item : Item}
    (h : schema.itemAt itemPath = .ok item) (property : String) :
    isItemProperty (itemPath ++ "." ++ property) = true := by
  obtain ⟨identifiers, hidentifiers, -⟩ := itemAt_eq_ok_iff.mp h
  obtain ⟨first, rest, -, rfl, -⟩ := ItemPath.eq_through_of_identifiers hidentifiers
  obtain ⟨more, hmore⟩ := ItemPath.exists_through_eq first rest
  refine isItemProperty_iff.mpr ⟨more ++ "." ++ property, ?_⟩
  rw [hmore]
  simp only [String.append_assoc]

theorem mem_dynamicPaths {schema : Schema} {current : List String} {path : String} :
    path ∈ schema.dynamicPaths current ↔
      path ∈ current ∧ schema.keepsPath path = true ∨ path ∈ schema.bindingPaths := by
  rw [dynamicPaths, List.mem_eraseDups, List.mem_append, List.mem_filter]

theorem mem_dynamicPaths_of_keepsPath {schema : Schema} {current : List String} {path : String}
    (hmem : path ∈ current) (h : schema.keepsPath path = true) : path ∈ schema.dynamicPaths current :=
  mem_dynamicPaths.mpr (.inl ⟨hmem, h⟩)

/-- The identifiers of a level are different, and each can stand in a path. -/
structure NamedLevel (level : Schema) : Prop where
  distinct : Distinct level
  names : ∀ identifier ∈ keys level, ItemPath.IsName identifier

instance (level : Schema) : Decidable level.NamedLevel :=
  decidable_of_iff (Distinct level ∧ ∀ identifier ∈ keys level, ItemPath.IsName identifier)
    ⟨fun ⟨distinct, names⟩ => ⟨distinct, names⟩, fun h => ⟨h.distinct, h.names⟩⟩

/-- All identifiers can stand in paths. -/
structure Named (schema : Schema) : Prop where
  top : schema.NamedLevel
  below : ∀ entry ∈ schema, entry.2.Everywhere fun item => NamedLevel item.children

instance (schema : Schema) : Decidable schema.Named :=
  decidable_of_iff
    (schema.NamedLevel ∧ ∀ entry ∈ schema, entry.2.Everywhere fun item => NamedLevel item.children)
    ⟨fun ⟨top, below⟩ => ⟨top, below⟩, fun h => ⟨h.top, h.below⟩⟩

theorem Named.distinct_below {schema : Schema} (h : schema.Named) :
    ∀ entry ∈ schema, entry.2.Everywhere fun item => Distinct item.children := fun entry hentry =>
  (h.below entry hentry).imp fun _ hlevel => hlevel.distinct

theorem names_of_descend {item : Item} (h : item.Everywhere fun item => NamedLevel item.children)
    {identifiers : List String} {found : Item} (hfound : item.descend identifiers = some found) :
    ∀ identifier ∈ identifiers, ItemPath.IsName identifier := by
  induction identifiers generalizing item with
  | nil => simp
  | cons identifier rest ih =>
    obtain ⟨child, hchild, hrest⟩ := Item.exists_child_of_descend hfound
    have hmem := OrderedMap.mem_of_get?_eq_some hchild
    exact List.forall_mem_cons.mpr
      ⟨h.here.names _ (OrderedMap.mem_keys_of_mem hmem), ih (h.inside _ hmem) hrest⟩

/-- The path of the default value of an item that is there, and that is a binding. -/
def IsBindingPath (schema : Schema) (path : String) : Prop :=
  ∃ itemPath item, path = itemPath ++ "." ++ defaultValueProperty ∧ schema.itemAt itemPath = .ok item ∧ item.Binds

private theorem mem_bindingPaths_iff {schema : Schema} (h : schema.Named) {path : String} :
    path ∈ schema.bindingPaths ↔ schema.IsBindingPath path := by
  rw [bindingPaths, List.mem_flatMap]
  constructor
  · rintro ⟨⟨first, top⟩, hentry, hpath⟩
    obtain ⟨rest, found, hfound, hbinds, rfl⟩ := (Item.mem_bindingPaths (h.distinct_below _ hentry)).mp hpath
    refine ⟨ItemPath.through first rest, found, rfl, itemAt_eq_ok_iff.mpr ⟨first :: rest, ?_, ?_⟩, hbinds⟩
    · exact ItemPath.identifiers_through_of_names (h.top.names _ (OrderedMap.mem_keys_of_mem hentry))
        (names_of_descend (h.below _ hentry) hfound)
    · rw [find?_cons, h.top.distinct.get?_of_mem hentry]
      exact hfound
  · rintro ⟨itemPath, found, rfl, hat, hbinds⟩
    obtain ⟨identifiers, hidentifiers, hfound⟩ := itemAt_eq_ok_iff.mp hat
    obtain ⟨first, rest, rfl, rfl, -⟩ := ItemPath.eq_through_of_identifiers hidentifiers
    rw [find?_cons] at hfound
    obtain ⟨top, htop, hfound⟩ := Option.bind_eq_some_iff.mp hfound
    have hentry := OrderedMap.mem_of_get?_eq_some htop
    exact ⟨_, hentry, (Item.mem_bindingPaths (h.distinct_below _ hentry)).mpr ⟨rest, found, hfound, hbinds, rfl⟩⟩

private theorem IsBindingPath.not_keepsPath {schema : Schema} {path : String} (h : schema.IsBindingPath path) :
    schema.keepsPath path = false := by
  obtain ⟨itemPath, item, rfl, hat, -⟩ := h
  rw [Bool.eq_false_iff]
  intro hkeeps
  obtain ⟨otherPath, property, _, hpath, hproperty, hother, -⟩ :=
    (keepsPath_iff (isItemProperty_of_itemAt hat _)).mp hkeeps
  exact hother (property_eq (by decide) hproperty hpath).2.symm

/-- First the current paths that stay, in the order of their first occurrences, then the bindings. -/
theorem dynamicPaths_eq {schema : Schema} (h : schema.Named) (current : List String) :
    schema.dynamicPaths current = current.eraseDups.filter schema.keepsPath ++ schema.bindingPaths.eraseDups := by
  have hapart : ∀ path ∈ schema.bindingPaths, path ∉ current.filter schema.keepsPath := by
    intro path hpath hmem
    have hnot := ((mem_bindingPaths_iff h).mp hpath).not_keepsPath
    rw [(List.mem_filter.mp hmem).2] at hnot
    cases hnot
  rw [dynamicPaths, List.eraseDups_append, removeAll_eq_self hapart, eraseDups_filter]

private theorem mem_dynamicPaths_iff {schema : Schema} (h : schema.Named) {current : List String} {path : String} :
    path ∈ schema.dynamicPaths current ↔
      path ∈ current ∧ schema.keepsPath path = true ∨ schema.IsBindingPath path := by
  rw [mem_dynamicPaths, mem_bindingPaths_iff h]

private theorem dynamicPaths_dynamicPaths {schema : Schema} (h : schema.Named) (current : List String) :
    schema.dynamicPaths (schema.dynamicPaths current) = schema.dynamicPaths current := by
  have hnone : schema.bindingPaths.eraseDups.filter schema.keepsPath = [] := by
    rw [List.filter_eq_nil_iff]
    intro path hpath hkeeps
    rw [((mem_bindingPaths_iff h).mp (List.mem_eraseDups.mp hpath)).not_keepsPath] at hkeeps
    cases hkeeps
  have hnodup : (schema.dynamicPaths current).eraseDups = schema.dynamicPaths current :=
    eraseDups_of_nodup (nodup_eraseDups _)
  rw [dynamicPaths_eq h (schema.dynamicPaths current), hnodup, dynamicPaths_eq h, List.filter_append, hnone,
    List.append_nil, List.filter_filter]
  simp only [Bool.and_self]

/-- A list of dynamic paths is exactly what a schema and the list before ask for. -/
structure ExactPaths (schema : Schema) (current paths : List String) : Prop where
  nodup : paths.Nodup
  /-- Of all default values, those of items that hold a binding. -/
  bindings : ∀ itemPath rest, itemPath ++ "." ++ defaultValueProperty = ItemPath.schemaWord ++ "." ++ rest →
    (itemPath ++ "." ++ defaultValueProperty ∈ paths ↔ ∃ item, schema.itemAt itemPath = .ok item ∧ item.Binds)
  /-- Of the other properties of an item that is there, the current ones. -/
  properties : ∀ itemPath property item, schema.itemAt itemPath = .ok item → '.' ∉ property.toList →
    property ≠ defaultValueProperty →
    (itemPath ++ "." ++ property ∈ paths ↔ itemPath ++ "." ++ property ∈ current)
  /-- Nothing else of the schema. -/
  items : ∀ rest, ItemPath.schemaWord ++ "." ++ rest ∈ paths → ∃ itemPath property item,
    ItemPath.schemaWord ++ "." ++ rest = itemPath ++ "." ++ property ∧ '.' ∉ property.toList ∧
      schema.itemAt itemPath = .ok item
  /-- Outside of the schema, the current paths. -/
  others : ∀ path, (∀ rest, path ≠ ItemPath.schemaWord ++ "." ++ rest) → (path ∈ paths ↔ path ∈ current)
  /-- What was there before stands first, in the order of first occurrences. -/
  order : ∃ kept added, paths = kept ++ added ∧
    (∀ path ∈ kept, path ∈ current ∧ ¬ schema.IsBindingPath path) ∧
    kept.Pairwise (fun a b => current.idxOf a < current.idxOf b) ∧
    ∀ path ∈ added, schema.IsBindingPath path

private theorem exactPaths_dynamicPaths {schema : Schema} (h : schema.Named) (current : List String) :
    schema.ExactPaths current (schema.dynamicPaths current) where
  nodup := nodup_eraseDups _
  bindings itemPath rest hrest := by
    have hitems : isItemProperty (itemPath ++ "." ++ defaultValueProperty) = true :=
      isItemProperty_iff.mpr ⟨rest, hrest⟩
    rw [mem_dynamicPaths_iff h]
    constructor
    · rintro (⟨-, hkeeps⟩ | ⟨otherPath, item, hpath, hat, hbinds⟩)
      · obtain ⟨otherPath, property, -, hpath, hproperty, hother, -⟩ := (keepsPath_iff hitems).mp hkeeps
        exact absurd (property_eq (by decide) hproperty hpath).2.symm hother
      · obtain ⟨rfl, -⟩ := property_eq (by decide) (by decide) hpath
        exact ⟨item, hat, hbinds⟩
    · rintro ⟨item, hat, hbinds⟩
      exact .inr ⟨itemPath, item, rfl, hat, hbinds⟩
  properties itemPath property item hat hproperty hother := by
    have hkeeps := (keepsPath_iff (isItemProperty_of_itemAt hat property)).mpr
      ⟨itemPath, property, item, rfl, hproperty, hother, hat⟩
    rw [mem_dynamicPaths_iff h, hkeeps]
    refine ⟨?_, fun hmem => .inl ⟨hmem, rfl⟩⟩
    rintro (⟨hmem, -⟩ | ⟨otherPath, -, hpath, -⟩)
    · exact hmem
    · exact absurd (property_eq hproperty (by decide) hpath).2 hother
  items rest hmem := by
    rcases (mem_dynamicPaths_iff h).mp hmem with ⟨-, hkeeps⟩ | ⟨itemPath, item, hpath, hat, -⟩
    · obtain ⟨itemPath, property, item, hpath, hproperty, -, hat⟩ :=
        (keepsPath_iff (isItemProperty_iff.mpr ⟨rest, rfl⟩)).mp hkeeps
      exact ⟨itemPath, property, item, hpath, hproperty, hat⟩
    · exact ⟨itemPath, defaultValueProperty, item, hpath, by decide, hat⟩
  others path hpath := by
    have hother : isItemProperty path = false :=
      Bool.eq_false_iff.mpr fun hitems => (isItemProperty_iff.mp hitems).elim hpath
    rw [mem_dynamicPaths_iff h, keepsPath_of_other hother]
    refine ⟨?_, fun hmem => .inl ⟨hmem, rfl⟩⟩
    rintro (⟨hmem, -⟩ | ⟨itemPath, item, rfl, hat, -⟩)
    · exact hmem
    · rw [isItemProperty_of_itemAt hat] at hother
      cases hother
  order := by
    refine ⟨_, _, dynamicPaths_eq h current, fun path hpath => ?_, ?_, fun path hpath => ?_⟩
    · obtain ⟨hmem, hkeeps⟩ := List.mem_filter.mp hpath
      refine ⟨List.mem_eraseDups.mp hmem, fun hbinding => ?_⟩
      rw [hbinding.not_keepsPath] at hkeeps
      cases hkeeps
    · exact (pairwise_idxOf_eraseDups current).filter _
    · exact (mem_bindingPaths_iff h).mp (List.mem_eraseDups.mp hpath)

/-- The list of dynamic paths is exact, and telling it again from itself changes nothing. -/
theorem dynamicPaths_exact {schema : Schema} (h : schema.Named) (current : List String) :
    schema.ExactPaths current (schema.dynamicPaths current) ∧
      schema.dynamicPaths (schema.dynamicPaths current) = schema.dynamicPaths current :=
  ⟨exactPaths_dynamicPaths h current, dynamicPaths_dynamicPaths h current⟩

def wordySchema : Schema :=
  let ctx : Context := { widget := "Form" }
  let innermost := Item.fresh ctx (.field "defaultValue" "defaultValue" SourcePath.root) (some (.int 1)) []
  let inner := Item.fresh ctx (.field "children" "children" SourcePath.root) none [("defaultValue", innermost)]
  [(Identifier.root, Item.fresh ctx rootSpec none
    [("children", { inner with defaultValue := some (.string "\x7b\x7b literal") })])]

def wordyPaths : List String := ["onSubmit", "schema.__root_schema__.label", "onSubmit", "schema."]

theorem dynamicPaths_exact_wordySchema : wordySchema.Named ∧
    wordySchema.ExactPaths wordyPaths (wordySchema.dynamicPaths wordyPaths) ∧
    wordySchema.dynamicPaths (wordySchema.dynamicPaths wordyPaths) = wordySchema.dynamicPaths wordyPaths := by
  have hnamed : wordySchema.Named := by decide +kernel
  exact ⟨hnamed, dynamicPaths_exact hnamed wordyPaths⟩

end Schema
end FormSchema
