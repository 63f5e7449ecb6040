import FormSchema.Proofs.Pattern
import FormSchema.Text.Email

namespace FormSchema.Email
open Pattern

def IsDotted (text : List Char) : Prop :=
  ∀ atom ∈ text.splitOn '.', atom ≠ [] ∧ ∀ c ∈ atom, c ∉ specials ∧ isBlank c = false

/-- Anything on one line between quotes, further quotes and at signs included. -/
def IsQuoted (text : List Char) : Prop := ∃ body, text = '"' :: (body ++ ['"']) ∧ body ≠ [] ∧ '\n' ∉ body

def IsNumericHost (text : List Char) : Prop :=
  ∃ inner, text = '[' :: (inner ++ [']']) ∧ (inner.splitOn '.').length = 4 ∧
    ∀ group ∈ inner.splitOn '.', (1 ≤ group.length ∧ group.length ≤ 3) ∧ ∀ c ∈ group, c.isDigit = true

/-- Labels between full stops. The last one consists of letters. -/
def IsNamedHost (text : List Char) : Prop :=
  ∃ labels last, text.splitOn '.' = labels ++ [last] ∧ labels ≠ [] ∧
    (∀ label ∈ labels, label ≠ [] ∧ ∀ c ∈ label, c.isAlphanum = true ∨ c = '-') ∧
    2 ≤ last.length ∧ ∀ c ∈ last, c.isAlpha = true

variable {text : List Char}

private theorem mem_atom_iff : text ∈ atom.language ↔ text ≠ [] ∧ ∀ c ∈ text, c ∉ specials ∧ isBlank c = false := by
  rw [atom, mem_oneOrMore_char]
  simp [isAtomChar]

private theorem mem_label_iff : text ∈ (oneOrMore (char isLabelChar)).language ↔
    text ≠ [] ∧ ∀ c ∈ text, c.isAlphanum = true ∨ c = '-' := by
  rw [mem_oneOrMore_char]
  simp [isLabelChar]

private theorem mem_letters_iff : text ∈ (seq (char Char.isAlpha) (oneOrMore (char Char.isAlpha))).language ↔
    2 ≤ text.length ∧ ∀ c ∈ text, c.isAlpha = true := by
  cases text with
  | nil => simp [nil_notMem_char_seq]
  | cons c rest =>
    rw [cons_mem_char_seq, mem_oneOrMore_char, List.forall_mem_cons, List.length_cons, Nat.succ_le_succ_iff,
      Nat.succ_le_iff, List.length_pos_iff]
    exact and_left_comm

private theorem mem_localPart_iff : text ∈ localPart.language ↔ IsDotted text ∨ IsQuoted text := by
  have hatom : ∀ piece ∈ atom.language, '.' ∉ piece := fun piece hpiece hdot =>
    absurd ((mem_atom_iff.mp hpiece).2 '.' hdot).1 (by decide)
  have hquoted : text ∈ (Pattern.sequence [just '"', oneOrMore (char (· != '\n')), just '"']).language ↔ IsQuoted text := by
    rw [sequence_cons, sequence_cons, mem_just_seq]
    constructor
    · rintro ⟨_, hrest, rfl⟩
      obtain ⟨body, hbody, rfl⟩ := mem_seq_just.mp hrest
      obtain ⟨hne, hline⟩ := mem_oneOrMore_char.mp hbody
      exact ⟨body, rfl, hne, fun hmem => by simpa using hline '\n' hmem⟩
    · rintro ⟨body, rfl, hne, hline⟩
      refine ⟨_, mem_seq_just.mpr ⟨body, mem_oneOrMore_char.mpr ⟨hne, fun c hc => ?_⟩, rfl⟩, rfl⟩
      exact bne_iff_ne.mpr fun heq => hline (heq ▸ hc)
  rw [localPart, mem_alt, mem_separated hatom, hquoted]
  simp only [mem_atom_iff]
  rfl

private theorem mem_namedHost_iff : text ∈ namedHost.language ↔ IsNamedHost text := by
  have hlabel : ∀ piece ∈ (oneOrMore (char isLabelChar)).language, '.' ∉ piece := fun piece hpiece hdot =>
    absurd ((mem_label_iff.mp hpiece).2 '.' hdot) (by decide)
  have hletters : ∀ piece ∈ (seq (char Char.isAlpha) (oneOrMore (char Char.isAlpha))).language, '.' ∉ piece :=
    fun piece hpiece hdot => absurd ((mem_letters_iff.mp hpiece).2 '.' hdot) (by decide)
  rw [namedHost, sequence_cons, sequence_cons, sequence_singleton, mem_separated_last hlabel hletters]
  simp only [mem_label_iff, mem_letters_iff]
  rfl

def group : Pattern := between (char Char.isDigit) 1 2

private theorem mem_group_iff : text ∈ group.language ↔
    (1 ≤ text.length ∧ text.length ≤ 3) ∧ ∀ c ∈ text, c.isDigit = true := mem_between_char

private theorem mem_numericHost_groups : text ∈ numericHost.language ↔ ∃ a ∈ group.language, ∃ b ∈ group.language,
    ∃ c ∈ group.language, ∃ d ∈ group.language, text = '[' :: (['.'].intercalate [a, b, c, d] ++ [']']) := by
  have hsequence : numericHost = seq (just '[') (seq group (seq (just '.') (seq group (seq (just '.') (seq group
      (seq (just '.') (seq group (just ']')))))))) := rfl
  rw [hsequence, mem_just_seq]
  simp only [mem_seq_just_seq, mem_seq_just]
  constructor
  · rintro ⟨_, ⟨a, ha, _, ⟨b, hb, _, ⟨c, hc, _, ⟨d, hd, rfl⟩, rfl⟩, rfl⟩, rfl⟩, rfl⟩
    exact ⟨a, ha, b, hb, c, hc, d, hd, by simp [List.intercalate_cons_cons]⟩
  · rintro ⟨a, ha, b, hb, c, hc, d, hd, rfl⟩
    exact ⟨_, ⟨a, ha, _, ⟨b, hb, _, ⟨c, hc, _, ⟨d, hd, rfl⟩, rfl⟩, rfl⟩, rfl⟩, by simp [List.intercalate_cons_cons]⟩

private theorem mem_numericHost_iff : text ∈ numericHost.language ↔ IsNumericHost text := by
  rw [mem_numericHost_groups]
  constructor
  · rintro ⟨a, ha, b, hb, c, hc, d, hd, rfl⟩
    have hgroups : ∀ piece ∈ [a, b, c, d], piece ∈ group.language := by simp [ha, hb, hc, hd]
    have hsplit : (['.'].intercalate [a, b, c, d]).splitOn '.' = [a, b, c, d] :=
      List.splitOn_intercalate '.' (fun piece hpiece hdot =>
        absurd ((mem_group_iff.mp (hgroups piece hpiece)).2 '.' hdot) (by decide)) (by simp)
    refine ⟨_, rfl, by rw [hsplit]; rfl, ?_⟩
    rw [hsplit]
    exact fun piece hpiece => mem_group_iff.mp (hgroups piece hpiece)
  · rintro ⟨inner, rfl, hfour, hgroups⟩
    match hsplit : inner.splitOn '.', hfour with
    | [a, b, c, d], _ =>
      rw [hsplit] at hgroups
      simp only [← mem_group_iff, List.forall_mem_cons] at hgroups
      obtain ⟨ha, hb, hc, hd, -⟩ := hgroups
      exact ⟨a, ha, b, hb, c, hc, d, hd, by rw [← hsplit, List.intercalate_splitOn]⟩

private theorem mem_address_iff : text ∈ address.language ↔ ∃ left ∈ localPart.language,
    ∃ right ∈ (alt numericHost namedHost).language, text = left ++ '@' :: right := mem_seq_just_seq

/-- Hosts are made of letters, digits, hyphens, full stops and brackets. -/
private theorem at_notMem_of_host (h : IsNumericHost text ∨ IsNamedHost text) : '@' ∉ text := by
  rcases h with ⟨inner, rfl, -, hgroups⟩ | ⟨labels, last, hsplit, -, hlabels, -, hletters⟩
  · intro hmem
    have hinner : '@' ∈ inner := by simpa using hmem
    obtain hdot | ⟨group, hgroup, hmem⟩ := eq_or_mem_of_mem_splitOn (c := '.') hinner
    · cases hdot
    · exact absurd ((hgroups group hgroup).2 '@' hmem) (by decide)
  · intro hmem
    obtain hdot | ⟨label, hlabel, hmem⟩ := eq_or_mem_of_mem_splitOn (c := '.') hmem
    · cases hdot
    · rw [hsplit] at hlabel
      rcases List.mem_append.mp hlabel with hlabel | hlast
      · exact absurd ((hlabels label hlabel).2 '@' hmem) (by decide)
      · exact absurd (hletters '@' (List.mem_singleton.mp hlast ▸ hmem)) (by decide)

/-- A text is an address exactly if it has an at sign and, taken apart at the last one, a local part
before it and a host after it. -/
theorem isEmail_iff (text : String) : isEmail text = true ↔
    ∃ left right, text.toList = left ++ '@' :: right ∧ '@' ∉ right ∧
      (IsDotted left ∨ IsQuoted left) ∧ (IsNumericHost right ∨ IsNamedHost right) := by
  rw [isEmail, accepts_iff, mem_address_iff]
  simp only [mem_localPart_iff, mem_alt, mem_numericHost_iff, mem_namedHost_iff]
  constructor
  · rintro ⟨left, hleft, right, hright, htext⟩
    exact ⟨left, right, htext, at_notMem_of_host hright, hleft, hright⟩
  · rintro ⟨left, right, htext, -, hleft, hright⟩
    exact ⟨left, hleft, right, hright, htext⟩

end FormSchema.Email
