namespace FormSchema

/-- Entries in order of first insertion. -/
abbrev OrderedMap (α : Type) := List (String × α)

namespace OrderedMap
variable {α : Type}

def keys (m : OrderedMap α) : List String := m.map Prod.fst

def values (m : OrderedMap α) : List α := m.map Prod.snd

def get? : OrderedMap α → String → Option α
  | [], _ => none
  | (k, v) :: rest, key => if k = key then some v else get? rest key

def contains (m : OrderedMap α) (key : String) : Bool := (get? m key).isSome

/-- A present key keeps its place and takes the new value; a new key goes to the end. -/
def insert : OrderedMap α → String → α → OrderedMap α
  | [], key, value => [(key, value)]
  | (k, v) :: rest, key, value =>
    if k = key then (k, value) :: rest else (k, v) :: insert rest key value

def erase : OrderedMap α → String → OrderedMap α
  | [], _ => []
  | (k, v) :: rest, key => if k = key then rest else (k, v) :: erase rest key

def modify (m : OrderedMap α) (key : String) (change : α → α) : OrderedMap α :=
  match get? m key with
  | some value => insert m key (change value)
  | none => m

/-- Of a repeated key, the last value at the first one's place. -/
def ofList (entries : List (String × α)) : OrderedMap α :=
  entries.foldl (fun m entry => insert m entry.1 entry.2) []

def Distinct (m : OrderedMap α) : Prop := (keys m).Nodup

instance (m : OrderedMap α) : Decidable (Distinct m) :=
  inferInstanceAs (Decidable (keys m).Nodup)

@[simp] theorem keys_nil : keys ([] : OrderedMap α) = [] := rfl

@[simp] theorem keys_cons (entry : String × α) (m : OrderedMap α) :
    keys (entry :: m) = entry.1 :: keys m := rfl

theorem get?_insert (m : OrderedMap α) (key other : String) (value : α) :
    get? (insert m key value) other = if other = key then some value else get? m other := by
  induction m with
  | nil => simp [insert, get?, eq_comm]
  | cons entry rest ih => grind [insert, get?]

theorem keys_insert (m : OrderedMap α) (key : String) (value : α) :
    keys (insert m key value) = if key ∈ keys m then keys m else keys m ++ [key] := by
  induction m with
  | nil => simp [insert]
  | cons entry rest ih => grind [insert, keys_cons]

theorem get?_eq_none_iff (m : OrderedMap α) (key : String) :
    get? m key = none ↔ key ∉ keys m := by
  induction m with
  | nil => simp [get?]
  | cons entry rest ih => grind [get?, keys_cons]

theorem mem_of_get?_eq_some {m : OrderedMap α} {key : String} {value : α}
    (h : get? m key = some value) : (key, value) ∈ m := by
  induction m with
  | nil => simp [get?] at h
  | cons entry rest ih => grind [get?]

end OrderedMap
end FormSchema
