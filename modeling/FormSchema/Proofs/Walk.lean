import FormSchema.Proofs.DynamicPaths

namespace FormSchema
open OrderedMap (Distinct)

namespace ItemPath

def along : List String → String
  | [] => schemaWord
  | first :: rest => through first rest

private theorem along_concat {way : List String} (h : way ≠ []) (identifier : String) :
    along (way ++ [identifier]) = child (along way) identifier := by
  obtain ⟨first, rest, rfl⟩ := List.exists_cons_of_ne_nil h
  rw [List.cons_append, along, along, through, through, List.foldl_append]
  rfl

end ItemPath

namespace Item

instance : DecidablePred Binds := fun _ => decidable_of_iff _ hasBinding_iff

mutual
/-- The item and all items below it, each with the identifiers on the way to it. Parents come first, siblings in
the order in which they are stored. -/
def walk (way : List String) : Item → List (List String × Item)
  | item@{ children, .. } => (way, item) :: walkLevel way children
termination_by structural item => item

def walkLevel (way : List String) : List (String × Item) → List (List String × Item)
  | [] => []
  | (identifier, item) :: rest => walk (way ++ [identifier]) item ++ walkLevel way rest
termination_by structural items => items
end

private theorem walk_eq (way : List String) (item : Item) :
    item.walk way = (way, item) :: item.children.flatMap fun entry => entry.2.walk (way ++ [entry.1]) := by
  have hlevel : ∀ level : Schema,
      walkLevel way level = level.flatMap fun entry => entry.2.walk (way ++ [entry.1]) := by
    intro level
    induction level with
    | nil => rfl
    | cons entry rest ih => rw [walkLevel, ih, List.flatMap_cons]
  rw [← hlevel]
  cases item
  rfl

section Walk
variable {item : Item}

/-- The bindings are listed in the order of the walk. -/
private theorem bindingPaths_eq_walk (h : item.Everywhere fun item => Distinct item.children) {way : List String}
    (hway : way ≠ []) : item.bindingPaths (ItemPath.along way) = ((item.walk way).filter (·.2.Binds)).map
      fun entry => ItemPath.along entry.1 ++ "." ++ defaultValueProperty := by
  induction h generalizing way with
  | intro here inside ih =>
    rename_i item
    have hbelow : (item.children.flatMap fun entry =>
          entry.2.bindingPaths (ItemPath.child (ItemPath.along way) entry.1)) =
        ((item.children.flatMap fun entry => entry.2.walk (way ++ [entry.1])).filter (·.2.Binds)).map
          fun entry => ItemPath.along entry.1 ++ "." ++ defaultValueProperty := by
      rw [List.filter_flatMap, List.map_flatMap]
      refine List.flatMap_congr fun entry hentry => ?_
      rw [← ItemPath.along_concat hway]
      exact ih entry hentry (by simp)
    rw [bindingPaths_eq, hbelow, walk_eq, List.filter_cons]
    by_cases hbinds : item.Binds
    · rw [if_pos (hasBinding_iff.mpr hbinds), if_pos (by simpa using hbinds)]
      rfl
    · rw [if_neg (mt hasBinding_iff.mp hbinds), if_neg (by simpa using hbinds)]
      rfl

end Walk
end Item

namespace Schema

def walk (schema : Schema) : List (List String × Item) := schema.flatMap fun entry => entry.2.walk [entry.1]

/-- The dynamic paths of the default values that are bindings, one for each item that holds one. -/
def boundPaths (schema : Schema) : List String :=
  (schema.walk.filter (·.2.Binds)).map fun entry => ItemPath.along entry.1 ++ "." ++ defaultValueProperty

namespace Named
variable {schema : Schema}

theorem bindingPaths_eq (h : schema.Named) : schema.bindingPaths = schema.boundPaths := by
  rw [bindingPaths, boundPaths, walk, List.filter_flatMap, List.map_flatMap]
  exact List.flatMap_congr fun entry hentry =>
    Item.bindingPaths_eq_walk (h.distinct_below entry hentry) (List.cons_ne_nil entry.1 [])

end Named
end Schema
end FormSchema
