/-!
The encoding of RFC 3492: the ASCII characters of a text in order, then the others as a run of
base-36 integers that state where each one is inserted. Arithmetic stops at the largest 32-bit word.
-/
namespace FormSchema.Punycode

def base : Nat := 36
def tMin : Nat := 1
def tMax : Nat := 26
def skew : Nat := 38
def damp : Nat := 700
def initialBias : Nat := 72
def initialCode : Nat := 128

/-- A number, or the largest word in place of one that is none. -/
def capped (n : Nat) : Nat := min n (UInt32.size - 1)

/-- Divides until the rest fits into one digit's range, counting a base for each division. -/
def settle (delta k : Nat) : Nat :=
  if h : (base - tMin) * tMax / 2 < delta then settle (delta / (base - tMin)) (k + base)
  else k + (base - tMin + 1) * delta / (delta + skew)
termination_by delta
decreasing_by exact Nat.div_lt_self (by omega) (by decide)

def adapt (delta count : Nat) (first : Bool) : Nat :=
  let delta := if first then delta / damp else delta / 2
  settle (delta + delta / count) 0

/-- Letters first, then the decimal digits. -/
def digit (n : Nat) : Char :=
  if n < 26 then Char.ofNat ('a'.toNat + n) else Char.ofNat ('0'.toNat + (n - 26))

/-- The least value at a position that does not end the integer. -/
def threshold (k bias : Nat) : Nat :=
  if k ≤ bias then tMin else if bias + tMax ≤ k then tMax else k - bias

theorem one_le_threshold (k bias : Nat) : 1 ≤ threshold k bias := by
  grind [threshold, tMin, tMax]

/-- An integer with digits of growing weight; the last one lies below its threshold. -/
def integer (q k bias : Nat) : List Char :=
  let t := threshold k bias
  if q < t then [digit q]
  else digit (t + (q - t) % (base - t)) :: integer ((q - t) / (base - t)) (k + base) bias
termination_by q
decreasing_by
  have := one_le_threshold k bias
  exact Nat.lt_of_le_of_lt (Nat.div_le_self ..) (by omega)

/-- The distance to the next insertion, the bias, and how many characters are in place. -/
structure State where
  delta : Nat
  bias : Nat
  placed : Nat

def insertAll (basic code : Nat) : List Nat → State → List Char × State
  | [], state => ([], state)
  | c :: rest, state =>
    if c < code then insertAll basic code rest { state with delta := capped (state.delta + 1) }
    else if c = code then
      let placed := state.placed + 1
      let bias := adapt state.delta placed (state.placed = basic)
      let (written, last) := insertAll basic code rest ⟨0, bias, placed⟩
      (integer state.delta base state.bias ++ written, last)
    else insertAll basic code rest state

/-- Inserts the codes one after the other; each starts from the least code not yet considered. -/
def insertCodes (basic : Nat) (text : List Nat) : List Nat → Nat → State → List Char
  | [], _, _ => []
  | code :: codes, least, state =>
    let delta := capped (state.delta + capped ((code - least) * (state.placed + 1)))
    let (written, state) := insertAll basic code text { state with delta }
    written ++
      insertCodes basic text codes (code + 1) { state with delta := capped (state.delta + 1) }

def insertAscending (n : Nat) : List Nat → List Nat
  | [] => [n]
  | m :: rest => if n < m then n :: m :: rest else if n = m then m :: rest
    else m :: insertAscending n rest

/-- The codes from the first one beyond ASCII on, ascending and each once. -/
def codes (text : List Nat) : List Nat :=
  (text.filter (initialCode ≤ ·)).foldr insertAscending []

def isAscii (c : Char) : Bool := c.toNat < initialCode

def encode (label : List Char) : List Char :=
  let basic := label.filter isAscii
  let text := label.map Char.toNat
  basic ++ (if basic.isEmpty then [] else ['-']) ++
    insertCodes basic.length text (codes text) initialCode ⟨0, initialBias, basic.length⟩

/-- Encodes each label that holds other than ASCII characters; labels end at full stops. -/
def toAscii (text : String) : String :=
  let convert (label : List Char) : List Char :=
    if label.all isAscii then label else "xn--".toList ++ encode label
  String.ofList (['.'].intercalate ((text.toList.splitOn '.').map convert))

end FormSchema.Punycode
