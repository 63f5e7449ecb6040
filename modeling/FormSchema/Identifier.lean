import FormSchema.Text.Punycode

namespace FormSchema

namespace Identifier

def root : String := "__root_schema__"

/-- Identifier of the template that describes every element of an array. -/
def arrayItem : String := "__array_item__"

/-- The identifiers that no key of a sample may take. -/
def reserved : List String := [arrayItem, root]

def isReserved (identifier : String) : Bool := reserved.contains identifier

def isWordChar (c : Char) : Bool := c.isAlphanum || c = '_'

/-- Puts an underscore for each character that no identifier holds, and for an empty key. -/
def fold (cs : List Char) : List Char :=
  if cs.isEmpty then ['_'] else cs.map fun c => if isWordChar c then c else '_'

def candidate (base : String) : Nat → String
  | 0 => base
  | n + 1 => base ++ toString (n + 1)

/-- The first candidate that is neither reserved nor taken. Reserved and taken identifiers are at
most `taken.length + 2` of the candidates, so one more is enough. -/
def firstFree (base : String) (taken : List String) : String :=
  let free (name : String) : Bool := !isReserved name && !taken.contains name
  let found := (List.range (taken.length + 3)).findSome? fun n =>
    let name := candidate base n
    if free name then some name else none
  found.getD base

def ofKey (key : String) (taken : List String) : String :=
  firstFree (String.ofList (fold (Punycode.toAscii key).toList)) taken

def ofKeys (keys : List String) : List String :=
  keys.foldl (fun named key => named ++ [ofKey key named]) []

end Identifier

namespace Title

inductive Run where
  | start
  | lower
  | upper
deriving DecidableEq, Repr

def Run.next (run : Run) (c : Char) : Run :=
  if c.isLower then .lower else if c.isUpper then .upper else run

/-- Cuts letters and digits where a small letter, or a digit after one, meets a capital, and before
the last of several capitals that a small letter follows. The word under way is held backwards. -/
def cut (run : Run) (word : List Char) : List Char → List (List Char)
  | [] => if word.isEmpty then [] else [word.reverse]
  | [c] => [(c :: word).reverse]
  | c :: next :: rest =>
    if run.next c = .lower && next.isUpper then
      (c :: word).reverse :: cut .start [] (next :: rest)
    else if run = .upper && c.isUpper && next.isLower then
      word.reverse :: cut .start [c] (next :: rest)
    else cut (run.next c) (c :: word) (next :: rest)

def chunks (cs : List Char) : List (List Char) :=
  (cs.splitOnP fun c => !c.isAlphanum).filter fun chunk => !chunk.isEmpty

def capitalize : List Char → List Char
  | [] => []
  | c :: rest => c.toUpper :: rest.map Char.toLower

/-- The words of a key, each with a capital in front. A key with other than ASCII characters, or
without letters and digits, is its own label. -/
def label (key : String) : String :=
  let cs := key.toList
  if cs.all (·.toNat < 128) && cs.any Char.isAlphanum then
    String.ofList ([' '].intercalate (((chunks cs).flatMap (cut .start [])).map capitalize))
  else key

end Title
end FormSchema
