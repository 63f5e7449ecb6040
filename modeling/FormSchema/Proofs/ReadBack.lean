import FormSchema.Json.Printer
import FormSchema.Json.Reader
import FormSchema.Proofs.Sample

/-!
Printed text read back. A value is read from the text that is printed for it, if its numbers are and if it does
not nest too deep for the reader.
-/
namespace FormSchema

namespace NumberLiteral

def Ends (rest : List Char) : Prop := ∀ c ∈ rest.head?, c.isDigit = false ∧ c ≠ '.' ∧ c ≠ 'e' ∧ c ≠ 'E'

variable {rest : List Char}

private theorem Ends.digits_append (h : Ends rest) (cs : List Char) :
    digits (cs ++ rest) = ((digits cs).1, (digits cs).2 ++ rest) := by
  induction cs with
  | nil =>
    cases rest with
    | nil => rfl
    | cons c rest => simp [digits, (h c rfl).1]
  | cons c cs ih =>
    obtain ⟨htake, hdrop⟩ := Prod.mk.inj ih
    cases hc : c.isDigit with
    | false => simp [digits, hc]
    | true => simpa [digits, hc] using ⟨htake, hdrop⟩

private theorem fraction?_of_ne {c : Char} (h : c ≠ '.') (cs : List Char) :
    fraction? (c :: cs) = some (none, c :: cs) := by
  unfold fraction?
  split
  · rename_i heq
    cases heq
    exact absurd rfl h
  · rfl

private theorem Ends.fraction?_append (h : Ends rest) {cs left : List Char} {places : Option (List Char)}
    (hcs : fraction? cs = some (places, left)) : fraction? (cs ++ rest) = some (places, left ++ rest) := by
  cases cs with
  | nil =>
    cases hcs
    cases rest with
    | nil => rfl
    | cons c rest => exact fraction?_of_ne (h c rfl).2.1 rest
  | cons c cs =>
    by_cases hc : c = '.'
    · subst hc
      rw [fraction?] at hcs
      rw [List.cons_append, fraction?, h.digits_append]
      generalize digits cs = split at hcs ⊢
      obtain ⟨ahead, behind⟩ := split
      cases ahead with
      | nil => cases hcs
      | cons digit ahead =>
        cases hcs
        rfl
    · rw [fraction?_of_ne hc] at hcs
      cases hcs
      exact fraction?_of_ne hc _

private theorem Ends.power?_append (h : Ends rest) {negative : Bool} {cs left : List Char} {power : Option Int}
    (hcs : power? negative cs = some (power, left)) : power? negative (cs ++ rest) = some (power, left ++ rest) := by
  rw [power?] at hcs ⊢
  rw [h.digits_append]
  generalize digits cs = split at hcs ⊢
  obtain ⟨ahead, behind⟩ := split
  cases ahead with
  | nil => cases hcs
  | cons digit ahead =>
    cases hcs
    rfl

private theorem Ends.exponent?_append (h : Ends rest) {cs left : List Char} {power : Option Int}
    (hcs : exponent? cs = some (power, left)) : exponent? (cs ++ rest) = some (power, left ++ rest) := by
  cases cs with
  | nil =>
    cases hcs
    cases rest with
    | nil => rfl
    | cons c rest =>
      obtain ⟨-, -, hsmall, hlarge⟩ := h c rfl
      simp [exponent?, hsmall, hlarge]
  | cons mark cs =>
    unfold exponent? at hcs
    rw [List.cons_append]
    unfold exponent?
    dsimp only at hcs ⊢
    split at hcs
    · rename_i hmark
      rw [if_pos hmark]
      split at hcs
      · exact h.power?_append hcs
      · exact h.power?_append hcs
      · rename_i hminus hplus
        -- The digits begin right after the mark.
        cases cs with
        | nil => cases hcs
        | cons c cs =>
          rw [List.cons_append]
          split
          · rename_i heq
            cases heq
            exact absurd rfl (hminus cs)
          · rename_i heq
            cases heq
            exact absurd rfl (hplus cs)
          · exact h.power?_append hcs
    · rename_i hmark
      rw [if_neg hmark]
      cases hcs
      rfl

private theorem Ends.integer?_append (h : Ends rest) {cs left whole : List Char}
    (hcs : integer? cs = some (whole, left)) : integer? (cs ++ rest) = some (whole, left ++ rest) := by
  unfold integer? at hcs ⊢
  rw [h.digits_append]
  split at hcs
  · cases hcs
  · cases hcs
  · obtain ⟨rfl, rfl⟩ := Prod.mk.inj (Option.some.inj hcs)
    rfl

private theorem sign_append {cs : List Char} (hcs : cs ≠ []) (rest : List Char) :
    sign (cs ++ rest) = ((sign cs).1, (sign cs).2 ++ rest) := by
  cases cs with
  | nil => exact absurd rfl hcs
  | cons c cs =>
    by_cases hc : c = '-'
    · subst hc
      rfl
    · simp [sign, hc]

private theorem Ends.scan?_append (h : Ends rest) {cs left : List Char} {literal : NumberLiteral}
    (hcs : scan? cs = some (literal, left)) : scan? (cs ++ rest) = some (literal, left ++ rest) := by
  have hstart : cs ≠ [] := by
    rintro rfl
    cases hcs
  unfold scan? at hcs ⊢
  rw [sign_append hstart]
  generalize sign cs = signed at hcs ⊢
  obtain ⟨negative, unsigned⟩ := signed
  obtain ⟨⟨whole, afterWhole⟩, hwhole, hcs⟩ := Option.bind_eq_some_iff.mp hcs
  obtain ⟨⟨fraction, afterFraction⟩, hfraction, hcs⟩ := Option.bind_eq_some_iff.mp hcs
  obtain ⟨⟨power, afterPower⟩, hpower, hcs⟩ := Option.bind_eq_some_iff.mp hcs
  cases hcs
  simp only [h.integer?_append hwhole, h.fraction?_append hfraction, h.exponent?_append hpower, Option.bind_eq_bind,
    Option.bind_some, Option.pure_def]

theorem Ends.read?_append (h : Ends rest) {cs left : List Char} {value : Json}
    (hcs : read? cs = some (value, left)) : read? (cs ++ rest) = some (value, left ++ rest) := by
  obtain ⟨⟨literal, behind⟩, hscan, hvalue⟩ := Option.bind_eq_some_iff.mp hcs
  obtain ⟨number, hnumber, heq⟩ := Option.bind_eq_some_iff.mp hvalue
  cases heq
  rw [read?, h.scan?_append hscan]
  show (literal.toJson? >>= fun number => _) = _
  rw [hnumber]
  rfl

end NumberLiteral

namespace Json.Reader
open Printer

/-! Strings. -/

def Stays (c : Char) : Prop := c ≠ ' ' ∧ c ≠ '\n' ∧ c ≠ '\t' ∧ c ≠ '\r'

instance (c : Char) : Decidable (Stays c) := inferInstanceAs (Decidable (_ ∧ _))

def Opens (c : Char) : Prop := Stays c ∧ c ≠ ']'

instance (c : Char) : Decidable (Opens c) := inferInstanceAs (Decidable (_ ∧ _))

/-- A text is read as a value wherever it stands. -/
structure Reads {α : Type} (read : List Char → Option (α × List Char)) (text : String) (value : α) : Prop where
  opens : ∃ c tail, text.toList = c :: tail ∧ Opens c
  reads : ∀ rest, NumberLiteral.Ends rest → read (text.toList ++ rest) = some (value, rest)

section Parts
variable {α : Type} {read : List Char → Option (α × List Char)} {text : α → String}

end Parts

end Json.Reader
end FormSchema
