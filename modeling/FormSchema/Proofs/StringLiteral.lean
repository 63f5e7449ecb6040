import FormSchema.Json.Reader
import FormSchema.Proofs.SourcePath

/-!
Quoted names of source paths as string literals of ECMAScript 2019, the language that bindings are evaluated
in. The grammar is that of double-quoted literals, and the value of one is a list of 16-bit units. A quoted
name is a literal, and then its value is the name, unless a line feed or a carriage return stands in it.
-/
namespace FormSchema

namespace StringLiteral

def units (code : Nat) : List Nat :=
  if code < 0x10000 then [code]
  else [0xD800 + (code - 0x10000) / 0x400, 0xDC00 + (code - 0x10000) % 0x400]

def isLineEnd (c : Char) : Bool := c = '\n' || c = '\r' || c = '\u2028' || c = '\u2029'

/-- Characters that stand for another one, or for themselves, behind a backslash. -/
def single? : Char → Option Nat
  | '\x27' => some 0x27
  | '"' => some 0x22
  | '\\' => some 0x5C
  | 'b' => some 0x08
  | 't' => some 0x09
  | 'n' => some 0x0A
  | 'v' => some 0x0B
  | 'f' => some 0x0C
  | 'r' => some 0x0D
  | _ => none

def hexadecimal? (digits : List Char) : Option Nat :=
  digits.foldlM (fun n c => (Json.Reader.hexDigit? c).map (16 * n + ·)) 0

/-- What stands behind a backslash, and the units that it stands for. -/
inductive Escape : List Char → List Nat → Prop
  | single {c : Char} {code : Nat} (h : single? c = some code) : Escape [c] [code]
  | other {c : Char} (hsingle : single? c = none) (hdigit : c.isDigit = false) (hnumeric : c ≠ 'x' ∧ c ≠ 'u')
    (hend : isLineEnd c = false) : Escape [c] (units c.toNat)
  | byte {digits : List Char} {code : Nat} (hlength : digits.length = 2) (h : hexadecimal? digits = some code) :
    Escape ('x' :: digits) [code]
  | unit {digits : List Char} {code : Nat} (hlength : digits.length = 4) (h : hexadecimal? digits = some code) :
    Escape ('u' :: digits) [code]
  | codePoint {digits : List Char} {code : Nat} (hne : digits ≠ []) (h : hexadecimal? digits = some code)
    (hcode : code ≤ 0x10FFFF) : Escape ('u' :: '\x7b' :: digits ++ ['\x7d']) (units code)

/-- What stands between the quotes, and its value. -/
inductive Contents : List Char → List Nat → Prop
  | nil : Contents [] []
  | plain {c : Char} {rest : List Char} {value : List Nat} (hquote : c ≠ '"') (hslash : c ≠ '\\')
    (hline : c ≠ '\n' ∧ c ≠ '\r') (hrest : Contents rest value) : Contents (c :: rest) (units c.toNat ++ value)
  | escape {escaped rest : List Char} {code value : List Nat} (h : Escape escaped code)
    (hrest : Contents rest value) : Contents ('\\' :: (escaped ++ rest)) (code ++ value)
  | zero {rest : List Char} {value : List Nat} (hnext : ∀ c ∈ rest.head?, c.isDigit = false)
    (hrest : Contents rest value) : Contents ('\\' :: '0' :: rest) (0 :: value)
  /-- The line goes on behind its end. -/
  | continued {c : Char} {rest : List Char} {value : List Nat} (hend : isLineEnd c = true)
    (hpair : c = '\r' → rest.head? ≠ some '\n') (hrest : Contents rest value) : Contents ('\\' :: c :: rest) value
  | continuedPair {rest : List Char} {value : List Nat} (hrest : Contents rest value) :
    Contents ('\\' :: '\r' :: '\n' :: rest) value

/-- A literal and its value. -/
def Denotes (text : List Char) (value : List Nat) : Prop :=
  ∃ contents, text = '"' :: contents ++ ['"'] ∧ Contents contents value

def unitsOf (text : List Char) : List Nat := text.flatMap fun c => units c.toNat

variable {c : Char} {rest : List Char} {value : List Nat}

private theorem contents_plain_iff (hslash : c ≠ '\\') (hquote : c ≠ '"') : Contents (c :: rest) value ↔
    (c ≠ '\n' ∧ c ≠ '\r') ∧ ∃ behind, value = units c.toNat ++ behind ∧ Contents rest behind := by
  constructor
  · intro h
    cases h with
    | plain _ _ hline hrest => exact ⟨hline, _, rfl, hrest⟩
    | escape | zero | continued | continuedPair => exact absurd rfl hslash
  · rintro ⟨hline, behind, rfl, hrest⟩
    exact .plain hquote hslash hline hrest

/-- The characters that names have behind a backslash stand for themselves. -/
private theorem single?_of_escaped (h : c = '\\' ∨ c = '"') : single? c = some c.toNat := by
  rcases h with rfl | rfl <;> rfl

private theorem units_of_escaped (h : c = '\\' ∨ c = '"') : units c.toNat = [c.toNat] := by
  rcases h with rfl | rfl <;> rfl

/-- Behind a backslash, a backslash or a quote is read as an escape of one character and nothing else. -/
private theorem eq_of_escape (h : c = '\\' ∨ c = '"') {escaped behind : List Char} {code : List Nat}
    (hescape : Escape escaped code) (htext : c :: rest = escaped ++ behind) : behind = rest ∧ code = [c.toNat] := by
  have hc := single?_of_escaped h
  cases hescape with
  | @single d _ hsingle =>
    obtain ⟨rfl, rfl⟩ := List.cons.inj htext
    rw [hc] at hsingle
    exact ⟨rfl, by rw [Option.some.inj hsingle]⟩
  | other hsingle =>
    obtain ⟨rfl, -⟩ := List.cons.inj htext
    rw [hc] at hsingle
    cases hsingle
  | byte | unit | codePoint =>
    obtain ⟨rfl, -⟩ := List.cons.inj htext
    exact absurd hc (by decide)

private theorem contents_escaped_iff (h : c = '\\' ∨ c = '"') : Contents ('\\' :: c :: rest) value ↔
    ∃ behind, value = units c.toNat ++ behind ∧ Contents rest behind := by
  have hc := single?_of_escaped h
  rw [units_of_escaped h]
  constructor
  · generalize htext : '\\' :: c :: rest = text
    intro hcontents
    cases hcontents with
    | nil => cases htext
    | plain _ hslash =>
      obtain ⟨rfl, -⟩ := List.cons.inj htext
      exact absurd rfl hslash
    | escape hescape hrest =>
      obtain ⟨rfl, rfl⟩ := eq_of_escape h hescape (List.cons.inj htext).2
      exact ⟨_, rfl, hrest⟩
    | zero | continuedPair =>
      cases htext
      exact absurd hc (by decide)
    | continued hend =>
      cases htext
      rcases h with rfl | rfl <;> cases hend
  · rintro ⟨behind, rfl, hrest⟩
    exact .escape (.single (single?_of_escaped h)) hrest

private theorem contents_escape_append_iff (c : Char) (rest : List Char) (value : List Nat) :
    Contents (SourcePath.escape c ++ rest) value ↔
      (c ≠ '\n' ∧ c ≠ '\r') ∧ ∃ behind, value = units c.toNat ++ behind ∧ Contents rest behind := by
  rw [SourcePath.escape]
  split
  · rename_i hescaped
    have hc : c = '\\' ∨ c = '"' := by simpa using hescaped
    have hline : c ≠ '\n' ∧ c ≠ '\r' := by rcases hc with rfl | rfl <;> decide
    rw [List.cons_append, List.singleton_append, contents_escaped_iff hc]
    exact ⟨fun h => ⟨hline, h⟩, And.right⟩
  · rename_i hplain
    have hc : ¬ (c = '\\' ∨ c = '"') := by simpa using hplain
    rw [not_or] at hc
    rw [List.singleton_append, contents_plain_iff hc.1 hc.2]

/-- An escaped name has one value, itself, unless a line ends in it. -/
private theorem contents_flatMap_escape_iff (key : List Char) (value : List Nat) :
    Contents (key.flatMap SourcePath.escape) value ↔ value = unitsOf key ∧ '\n' ∉ key ∧ '\r' ∉ key := by
  induction key generalizing value with
  | nil =>
    constructor
    · rintro ⟨⟩
      exact ⟨rfl, List.not_mem_nil, List.not_mem_nil⟩
    · rintro ⟨rfl, -⟩
      exact .nil
  | cons c key ih =>
    rw [List.flatMap_cons, contents_escape_append_iff, List.mem_cons, List.mem_cons, not_or, not_or]
    constructor
    · rintro ⟨⟨hfeed, hreturn⟩, behind, rfl, hcontents⟩
      obtain ⟨rfl, hkey, hkey'⟩ := (ih behind).mp hcontents
      exact ⟨rfl, ⟨hfeed.symm, hkey⟩, hreturn.symm, hkey'⟩
    · rintro ⟨rfl, ⟨hfeed, hkey⟩, hreturn, hkey'⟩
      exact ⟨⟨Ne.symm hfeed, Ne.symm hreturn⟩, unitsOf key, rfl, (ih _).mpr ⟨rfl, hkey, hkey'⟩⟩

private theorem denotes_quote_iff (key : List Char) (value : List Nat) :
    Denotes (SourcePath.quote key) value ↔ value = unitsOf key ∧ '\n' ∉ key ∧ '\r' ∉ key := by
  rw [← contents_flatMap_escape_iff]
  constructor
  · rintro ⟨contents, htext, hcontents⟩
    obtain rfl := List.append_cancel_right (List.cons.inj htext).2
    exact hcontents
  · intro hcontents
    exact ⟨_, rfl, hcontents⟩

end StringLiteral

namespace SourcePath

private theorem step_of_not_bare (base : String) {key : String} (h : isBareName key.toList = false) :
    step base (.name key) = base ++ "[" ++ String.ofList (quote key.toList) ++ "]" := by
  rw [← String.toList_inj]
  simp [step, segment, h]

/-- A name that does not stand after a point stands in brackets, as a literal with the name as its one value if
no line ends in it, and else as no literal at all. -/
theorem step_literal_iff (base : String) {key : String} (h : isBareName key.toList = false) :
    ∃ literal, step base (.name key) = base ++ "[" ++ String.ofList literal ++ "]" ∧
      ∀ value, StringLiteral.Denotes literal value ↔
        value = StringLiteral.unitsOf key.toList ∧ '\n' ∉ key.toList ∧ '\r' ∉ key.toList :=
  ⟨quote key.toList, step_of_not_bare base h, StringLiteral.denotes_quote_iff key.toList⟩

/-- Quotes and backslashes in a name, a control character, a line separator and a character of two units. -/
theorem step_literal_iff_awkward : isBareName "a\"\\\t\u2028😀".toList = false ∧
    ∃ literal, step "sourceData" (.name "a\"\\\t\u2028😀") = "sourceData" ++ "[" ++ String.ofList literal ++ "]" ∧
      StringLiteral.Denotes literal [0x61, 0x22, 0x5C, 0x09, 0x2028, 0xD83D, 0xDE00] := by
  have hname : isBareName "a\"\\\t\u2028😀".toList = false := by decide
  obtain ⟨literal, hstep, hdenotes⟩ := step_literal_iff "sourceData" hname
  exact ⟨hname, literal, hstep, (hdenotes _).mpr (by decide)⟩

/-- A line feed in a name stands in the brackets as it is, which no literal allows. -/
theorem not_literal_lineFeed : isBareName "a\nb".toList = false ∧
    step "sourceData" (.name "a\nb") = "sourceData[\"a\nb\"]" ∧
    ¬ ∃ literal value, step "sourceData" (.name "a\nb") = "sourceData" ++ "[" ++ String.ofList literal ++ "]" ∧
      StringLiteral.Denotes literal value := by
  have hname : isBareName "a\nb".toList = false := by decide
  refine ⟨hname, by decide, ?_⟩
  rintro ⟨literal, value, hstep, hdenotes⟩
  rw [step_of_not_bare _ hname, String.append_left_inj, String.append_right_inj] at hstep
  rw [← String.ofList_injective hstep, StringLiteral.denotes_quote_iff] at hdenotes
  exact absurd hdenotes.2.1 (by decide)

end SourcePath
end FormSchema
