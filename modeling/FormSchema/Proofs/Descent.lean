import FormSchema.Path
import FormSchema.Proofs.Position

namespace FormSchema

namespace Item

/-- The item that identifiers lead to from this one. -/
def descend (item : Item) : List String → Option Item
  | [] => some item
  | identifier :: rest =>
    match OrderedMap.get? item.children identifier with
    | some child => child.descend rest
    | none => none

theorem descend_cons {item child : Item} {identifier : String}
    (h : OrderedMap.get? item.children identifier = some child) (rest : List String) :
    item.descend (identifier :: rest) = child.descend rest := by
  rw [descend, h]

theorem descend_cons_eq (item : Item) (identifier : String) (rest : List String) : item.descend (identifier :: rest) =
    (OrderedMap.get? item.children identifier).bind fun child => child.descend rest := by
  rw [descend]
  cases OrderedMap.get? item.children identifier <;> rfl

theorem exists_child_of_descend {item found : Item} {identifier : String} {rest : List String}
    (h : item.descend (identifier :: rest) = some found) :
    ∃ child, OrderedMap.get? item.children identifier = some child ∧ child.descend rest = some found := by
  rw [descend] at h
  split at h
  · exact ⟨_, ‹_›, h⟩
  · cases h

/-- Only the level below matters, except to the item itself. -/
theorem descend_congr {a b : Item} (h : a.children = b.children) {path : List String} (hpath : path ≠ []) :
    a.descend path = b.descend path := by
  cases path with
  | nil => exact absurd rfl hpath
  | cons identifier rest => rw [descend, descend, h]

/-- The place among the siblings makes no difference to the items below. -/
theorem descend_movedTo (item : Item) (n : Int) {path : List String} (hpath : path ≠ []) :
    (item.movedTo n).descend path = item.descend path := by
  apply descend_congr
  · rfl
  · exact hpath

end Item

namespace Schema

theorem find?_cons (level : Schema) (identifier : String) (rest : List String) :
    level.find? (identifier :: rest) = (OrderedMap.get? level identifier).bind fun item => item.descend rest := by
  induction rest generalizing level identifier with
  | nil =>
    rw [find?]
    cases OrderedMap.get? level identifier <;> rfl
  | cons next rest ih =>
    have hfind : level.find? (identifier :: next :: rest) =
        match OrderedMap.get? level identifier with
        | some item => find? item.children (next :: rest)
        | none => none := rfl
    rw [hfind]
    cases OrderedMap.get? level identifier with
    | none => rfl
    | some item =>
      rw [Option.bind_some, Item.descend]
      dsimp only
      rw [ih]
      cases OrderedMap.get? item.children next <;> rfl

theorem exists_first_of_find? {level : Schema} {names : List String} {item : Item} (h : level.find? names = some item) :
    ∃ first rest root, names = first :: rest ∧ OrderedMap.get? level first = some root ∧
      root.descend rest = some item := by
  cases names with
  | nil => cases h
  | cons first rest =>
    rw [find?_cons] at h
    obtain ⟨root, hroot, hfound⟩ := Option.bind_eq_some_iff.mp h
    exact ⟨first, rest, root, rfl, hroot, hfound⟩

/-- Below an item, the way down is the way from its level. -/
theorem find?_children {item : Item} {path : List String} (hpath : path ≠ []) :
    find? item.children path = item.descend path := by
  cases path with
  | nil => exact absurd rfl hpath
  | cons identifier rest =>
    rw [find?_cons, Item.descend]
    cases OrderedMap.get? item.children identifier <;> rfl

end Schema
end FormSchema
