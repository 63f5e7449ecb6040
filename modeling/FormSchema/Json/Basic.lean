import FormSchema.OrderedMap
import FormSchema.Json.Double

/-!
Sample values. An object keeps its keys in order; two values are the same when they differ at most
in that order.
-/
namespace FormSchema

/-- A value of a sample or of a stored schema. A whole number and a double are never the same. -/
inductive Json where
  | null
  | bool (value : Bool)
  | int (value : Int)
  | double (value : Double)
  | string (text : String)
  | array (items : List Json)
  | object (entries : List (String × Json))
deriving Inhabited

namespace Json

mutual
/-- The number of keys and indices on the longest way down. -/
def height : Json → Nat
  | .array items => itemsHeight items
  | .object entries => entriesHeight entries
  | _ => 0
termination_by structural value => value

def itemsHeight : List Json → Nat
  | [] => 0
  | item :: rest => max (item.height + 1) (itemsHeight rest)
termination_by structural items => items

def entriesHeight : List (String × Json) → Nat
  | [] => 0
  | (_, value) :: rest => max (value.height + 1) (entriesHeight rest)
termination_by structural entries => entries
end

mutual
/-- Equal up to the order of object keys. -/
def same : Json → Json → Bool
  | .null, .null => true
  | .bool a, .bool b => a = b
  | .int a, .int b => a = b
  | .double a, .double b => a.same b
  | .string a, .string b => a = b
  | .array a, .array b => sameItems a b
  | .object a, .object b => a.length = b.length && entriesWithin a b
  | _, _ => false
termination_by structural value => value

def sameItems : List Json → List Json → Bool
  | [], [] => true
  | a :: as, b :: bs => a.same b && sameItems as bs
  | _, _ => false
termination_by structural items => items

def entriesWithin : List (String × Json) → List (String × Json) → Bool
  | [], _ => true
  | (key, value) :: rest, other =>
    (match OrderedMap.get? other key with
      | some found => value.same found
      | none => false) && entriesWithin rest other
termination_by structural entries => entries
end

mutual
/-- Of a repeated key in an object, keeps the last value at the first one's place. -/
def collapse : Json → Json
  | .array items => .array (collapseItems items)
  | .object entries => .object (OrderedMap.ofList (collapseEntries entries))
  | value => value
termination_by structural value => value

def collapseItems : List Json → List Json
  | [] => []
  | item :: rest => item.collapse :: collapseItems rest
termination_by structural items => items

def collapseEntries : List (String × Json) → List (String × Json)
  | [] => []
  | (key, value) :: rest => (key, value.collapse) :: collapseEntries rest
termination_by structural entries => entries
end

mutual
/-- No object in the value has a key twice. -/
def WellFormed : Json → Prop
  | .array items => ItemsWellFormed items
  | .object entries => OrderedMap.Distinct entries ∧ EntriesWellFormed entries
  | _ => True
termination_by structural value => value

def ItemsWellFormed : List Json → Prop
  | [] => True
  | item :: rest => item.WellFormed ∧ ItemsWellFormed rest
termination_by structural items => items

def EntriesWellFormed : List (String × Json) → Prop
  | [] => True
  | (_, value) :: rest => value.WellFormed ∧ EntriesWellFormed rest
termination_by structural entries => entries
end

/-- Holds no element, key or value: null, `[]` or the empty object. -/
def isEmpty : Json → Bool
  | .null => true
  | .array items => items.isEmpty
  | .object entries => entries.isEmpty
  | _ => false

def isObject : Json → Bool
  | .object _ => true
  | _ => false

def text? : Json → Option String
  | .string text => some text
  | _ => none

theorem height_lt_of_mem {item : Json} {items : List Json} (h : item ∈ items) :
    item.height < (Json.array items).height := by
  simp only [height]
  induction items with
  | nil => simp at h
  | cons head rest ih =>
    simp only [itemsHeight]
    cases h with
    | head => omega
    | tail _ h => have := ih h; omega

theorem height_lt_of_entry_mem {key : String} {value : Json} {entries : List (String × Json)}
    (h : (key, value) ∈ entries) : value.height < (Json.object entries).height := by
  simp only [height]
  induction entries with
  | nil => simp at h
  | cons head rest ih =>
    obtain ⟨_, first⟩ := head
    simp only [entriesHeight]
    rcases List.mem_cons.mp h with h | h
    · obtain ⟨-, rfl⟩ := Prod.mk.inj h; omega
    · have := ih h; omega

end Json
end FormSchema
