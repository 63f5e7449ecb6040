import FormSchema.Text.Email
import Mathlib.Computability.Language

namespace FormSchema.Pattern
open scoped Computability

/-- The texts that a pattern stands for. -/
def language : Pattern → Language Char
  | never => 0
  | empty => 1
  | char accepts => {text | ∃ c, accepts c = true ∧ text = [c]}
  | seq first second => first.language * second.language
  | alt left right => left.language + right.language
  | star body => body.language∗

private theorem mem_char {accepts : Char → Bool} {text : List Char} :
    text ∈ (char accepts).language ↔ ∃ c, accepts c = true ∧ text = [c] := Iff.rfl

private theorem mem_just {c : Char} {text : List Char} : text ∈ (just c).language ↔ text = [c] := by
  rw [just, mem_char]
  simp

private theorem mem_seq {p q : Pattern} {text : List Char} :
    text ∈ (seq p q).language ↔ ∃ a ∈ p.language, ∃ b ∈ q.language, a ++ b = text := Language.mem_mul

theorem mem_alt {p q : Pattern} {text : List Char} :
    text ∈ (alt p q).language ↔ text ∈ p.language ∨ text ∈ q.language := Iff.rfl

private theorem mem_star {p : Pattern} {text : List Char} :
    text ∈ (star p).language ↔ ∃ parts : List (List Char), text = parts.flatten ∧ ∀ part ∈ parts, part ∈ p.language :=
  Language.mem_kstar

theorem sequence_cons (p q : Pattern) (rest : List Pattern) :
    sequence (p :: q :: rest) = seq p (sequence (q :: rest)) := rfl

theorem sequence_singleton (p : Pattern) : sequence [p] = p := rfl

theorem mem_just_seq {c : Char} {q : Pattern} {text : List Char} :
    text ∈ (seq (just c) q).language ↔ ∃ rest ∈ q.language, text = c :: rest := by
  simp [mem_seq, mem_just, eq_comm]

theorem mem_seq_just {p : Pattern} {c : Char} {text : List Char} :
    text ∈ (seq p (just c)).language ↔ ∃ front ∈ p.language, text = front ++ [c] := by
  simp [mem_seq, mem_just, eq_comm]

theorem mem_seq_just_seq {p q : Pattern} {c : Char} {text : List Char} :
    text ∈ (seq p (seq (just c) q)).language ↔ ∃ a ∈ p.language, ∃ b ∈ q.language, text = a ++ c :: b := by
  simp [mem_seq, mem_just, eq_comm]

private theorem language_andThen (p q : Pattern) : (andThen p q).language = p.language * q.language := by
  unfold andThen
  split <;> simp [language]

private theorem language_union (p q : Pattern) : (union p q).language = p.language + q.language := by
  unfold union
  split <;> simp [language]

private theorem nullable_iff (p : Pattern) : p.nullable = true ↔ [] ∈ p.language := by
  induction p with
  | never => simp [nullable, language]
  | empty => simp [nullable, language]
  | char accepts => simp [nullable, mem_char]
  | seq p q ihp ihq => simp [nullable, mem_seq, ihp, ihq]
  | alt p q ihp ihq => simp [nullable, mem_alt, ihp, ihq]
  | star p => simp [nullable, language, Language.nil_mem_kstar]

private theorem cons_mem_mul_iff {l m : Language Char} {c : Char} {text : List Char} : c :: text ∈ l * m ↔
    (∃ a, c :: a ∈ l ∧ ∃ b ∈ m, a ++ b = text) ∨ [] ∈ l ∧ c :: text ∈ m := by
  rw [Language.mem_mul]
  constructor
  · rintro ⟨a, ha, b, hb, heq⟩
    cases a with
    | nil => exact .inr ⟨ha, heq ▸ hb⟩
    | cons d a =>
      obtain ⟨rfl, rfl⟩ := List.cons.inj heq
      exact .inl ⟨a, ha, b, hb, rfl⟩
  · rintro (⟨a, ha, b, hb, rfl⟩ | ⟨hnil, htext⟩)
    · exact ⟨c :: a, ha, b, hb, rfl⟩
    · exact ⟨[], hnil, c :: text, htext, rfl⟩

private theorem cons_mem_kstar_iff {l : Language Char} {c : Char} {text : List Char} :
    c :: text ∈ l∗ ↔ ∃ a, c :: a ∈ l ∧ ∃ b ∈ l∗, a ++ b = text := by
  constructor
  · intro h
    obtain ⟨parts, heq, hparts⟩ := Language.mem_kstar_iff_exists_nonempty.mp h
    cases parts with
    | nil => cases heq
    | cons part parts =>
      obtain ⟨⟨hpart, hne⟩, hrest⟩ := List.forall_mem_cons.mp hparts
      obtain ⟨d, a, rfl⟩ := List.exists_cons_of_ne_nil hne
      obtain ⟨rfl, rfl⟩ := List.cons.inj heq
      exact ⟨a, hpart, parts.flatten, Language.join_mem_kstar fun other hother => (hrest other hother).1, rfl⟩
  · rintro ⟨a, ha, b, hb, rfl⟩
    rw [← Language.one_add_self_mul_kstar_eq_kstar]
    exact .inr (Language.append_mem_mul ha hb)

/-- The derivative stands for what may follow the character. -/
private theorem mem_derivative (c : Char) (p : Pattern) (text : List Char) :
    text ∈ (p.derivative c).language ↔ c :: text ∈ p.language := by
  induction p generalizing text with
  | never => simp [derivative, language]
  | empty => simp [derivative, language]
  | char accepts =>
    rw [derivative, mem_char]
    split <;> simp_all [language]
  | seq p q ihp ihq =>
    have hthen : text ∈ (andThen (p.derivative c) q).language ↔
        ∃ a, c :: a ∈ p.language ∧ ∃ b ∈ q.language, a ++ b = text := by
      rw [language_andThen, Language.mem_mul]
      simp only [ihp]
    rw [derivative, language, cons_mem_mul_iff, ← hthen, ← ihq, ← nullable_iff]
    split
    · rename_i hnullable
      rw [language_union, Language.mem_add]
      simp [hnullable]
    · rename_i hnullable
      simp [hnullable]
  | alt p q ihp ihq => rw [derivative, language_union, Language.mem_add, ihp, ihq, mem_alt]
  | star p ih =>
    rw [derivative, language_andThen, Language.mem_mul, language, cons_mem_kstar_iff]
    simp only [ih]

theorem accepts_iff (p : Pattern) (text : List Char) : p.accepts text = true ↔ text ∈ p.language := by
  induction text generalizing p with
  | nil => exact nullable_iff p
  | cons c text ih => rw [accepts, ih, mem_derivative]

/-! Repeated characters, and parts with a character between any two of them. -/

variable {accepts : Char → Bool} {text : List Char}

theorem nil_notMem_char_seq {q : Pattern} : [] ∉ (seq (char accepts) q).language := by
  rw [mem_seq]
  rintro ⟨_, ⟨c, -, rfl⟩, rest, -, heq⟩
  cases heq

theorem cons_mem_char_seq {q : Pattern} {c : Char} :
    c :: text ∈ (seq (char accepts) q).language ↔ accepts c = true ∧ text ∈ q.language := by
  rw [mem_seq]
  constructor
  · rintro ⟨_, ⟨d, hd, rfl⟩, rest, hrest, heq⟩
    obtain ⟨rfl, rfl⟩ := List.cons.inj heq
    exact ⟨hd, hrest⟩
  · rintro ⟨hc, htext⟩
    exact ⟨[c], ⟨c, hc, rfl⟩, text, htext, rfl⟩

private theorem mem_star_char : text ∈ (star (char accepts)).language ↔ ∀ c ∈ text, accepts c = true := by
  rw [mem_star]
  constructor
  · rintro ⟨parts, rfl, hparts⟩ c hc
    obtain ⟨part, hpart, hmem⟩ := List.mem_flatten.mp hc
    obtain ⟨d, hd, rfl⟩ := hparts part hpart
    rwa [List.mem_singleton.mp hmem]
  · intro h
    refine ⟨text.map fun c => [c], by rw [← List.flatMap_def, List.flatMap_singleton'], ?_⟩
    intro part hpart
    obtain ⟨c, hc, rfl⟩ := List.mem_map.mp hpart
    exact ⟨c, h c hc, rfl⟩

theorem mem_oneOrMore_char : text ∈ (oneOrMore (char accepts)).language ↔
    text ≠ [] ∧ ∀ c ∈ text, accepts c = true := by
  rw [oneOrMore]
  cases text with
  | nil => simp [nil_notMem_char_seq]
  | cons c rest => simp [cons_mem_char_seq, mem_star_char]

theorem mem_between_char {least more : Nat} : text ∈ (between (char accepts) least more).language ↔
    (least ≤ text.length ∧ text.length ≤ least + more) ∧ ∀ c ∈ text, accepts c = true := by
  induction least, more using between.induct generalizing text with
  | case1 =>
    rw [between, language, Language.mem_one]
    cases text <;> simp
  | case2 more ih =>
    rw [between, mem_alt, language, Language.mem_one]
    cases text with
    | nil => simp
    | cons c rest =>
      rw [cons_mem_char_seq, ih, List.forall_mem_cons, List.length_cons]
      grind
  | case3 least more ih =>
    rw [between]
    cases text with
    | nil => simp [nil_notMem_char_seq]
    | cons c rest =>
      rw [cons_mem_char_seq, ih, List.forall_mem_cons, List.length_cons]
      grind

private theorem exists_pieces {f : List Char → List Char} {r : List Char → Prop} {parts : List (List Char)}
    (h : ∀ part ∈ parts, ∃ piece, r piece ∧ part = f piece) :
    ∃ pieces : List (List Char), parts = pieces.map f ∧ ∀ piece ∈ pieces, r piece := by
  induction parts with
  | nil => exact ⟨[], rfl, fun _ hmem => absurd hmem List.not_mem_nil⟩
  | cons part parts ih =>
    obtain ⟨⟨piece, hpiece, rfl⟩, hrest⟩ := List.forall_mem_cons.mp h
    obtain ⟨pieces, rfl, hpieces⟩ := ih hrest
    exact ⟨piece :: pieces, rfl, List.forall_mem_cons.mpr ⟨hpiece, hpieces⟩⟩

private theorem intercalate_cons (c : Char) (first : List Char) (rest : List (List Char)) :
    [c].intercalate (first :: rest) = first ++ (rest.map (c :: ·)).flatten := by
  induction rest generalizing first with
  | nil => simp
  | cons second rest ih => simp [List.intercalate_cons_cons, ih]

private theorem intercalate_concat (c : Char) (pieces : List (List Char)) (last : List Char) :
    [c].intercalate (pieces ++ [last]) = (pieces.map (· ++ [c])).flatten ++ last := by
  induction pieces with
  | nil => simp
  | cons first pieces ih =>
    rw [List.cons_append, List.intercalate_cons_of_ne_nil (by simp), ih]
    simp

theorem eq_or_mem_of_mem_splitOn {c d : Char} (h : d ∈ text) : d = c ∨ ∃ piece ∈ text.splitOn c, d ∈ piece := by
  obtain ⟨first, rest, hsplit⟩ := List.exists_cons_of_ne_nil (List.splitOn_ne_nil c text)
  rw [← show [c].intercalate (text.splitOn c) = text from List.intercalate_splitOn c, hsplit, intercalate_cons, List.mem_append] at h
  rw [hsplit]
  rcases h with hfirst | hrest
  · exact .inr ⟨first, List.mem_cons_self, hfirst⟩
  · obtain ⟨part, hpart, hmem⟩ := List.mem_flatten.mp hrest
    obtain ⟨piece, hpiece, rfl⟩ := List.mem_map.mp hpart
    rcases List.mem_cons.mp hmem with rfl | hmem
    · exact .inl rfl
    · exact .inr ⟨piece, List.mem_cons_of_mem _ hpiece, hmem⟩

private theorem mem_oneOrMore {p : Pattern} : text ∈ (oneOrMore p).language ↔
    ∃ parts : List (List Char), parts ≠ [] ∧ text = parts.flatten ∧ ∀ part ∈ parts, part ∈ p.language := by
  rw [oneOrMore, mem_seq]
  constructor
  · rintro ⟨first, hfirst, _, ⟨rest, rfl, hrest⟩, rfl⟩
    exact ⟨first :: rest, List.cons_ne_nil _ _, rfl, List.forall_mem_cons.mpr ⟨hfirst, hrest⟩⟩
  · rintro ⟨parts, hne, rfl, hparts⟩
    obtain ⟨first, rest, rfl⟩ := List.exists_cons_of_ne_nil hne
    obtain ⟨hfirst, hrest⟩ := List.forall_mem_cons.mp hparts
    exact ⟨first, hfirst, rest.flatten, mem_star.mpr ⟨rest, rfl, hrest⟩, rfl⟩

/-- Parts that are separated by a character none of them has are the pieces of the text. -/
theorem mem_separated {c : Char} {part : Pattern} (hpart : ∀ piece ∈ part.language, c ∉ piece) :
    text ∈ (seq part (star (seq (just c) part))).language ↔ ∀ piece ∈ text.splitOn c, piece ∈ part.language := by
  rw [mem_seq]
  constructor
  · rintro ⟨first, hfirst, _, ⟨parts, rfl, hparts⟩, rfl⟩
    obtain ⟨rest, rfl, hrest⟩ := exists_pieces (f := (c :: ·)) (r := (· ∈ part.language)) (by
      intro q hq
      obtain ⟨_, hc, piece, hpiece, rfl⟩ := mem_seq.mp (hparts q hq)
      exact ⟨piece, hpiece, by rw [mem_just.mp hc]; rfl⟩)
    have hall := List.forall_mem_cons.mpr ⟨hfirst, hrest⟩
    rwa [← intercalate_cons, List.splitOn_intercalate c (fun piece hmem => hpart piece (hall piece hmem))
      (List.cons_ne_nil _ _)]
  · intro h
    obtain ⟨first, rest, hsplit⟩ := List.exists_cons_of_ne_nil (List.splitOn_ne_nil c text)
    rw [hsplit] at h
    obtain ⟨hfirst, hrest⟩ := List.forall_mem_cons.mp h
    refine ⟨first, hfirst, (rest.map (c :: ·)).flatten, mem_star.mpr ⟨_, rfl, ?_⟩, ?_⟩
    · intro q hq
      obtain ⟨piece, hpiece, rfl⟩ := List.mem_map.mp hq
      exact mem_seq.mpr ⟨[c], mem_just.mpr rfl, piece, hrest piece hpiece, rfl⟩
    · rw [← intercalate_cons, ← hsplit, List.intercalate_splitOn]

/-- The same with another pattern for the last part, and at least one part before it. -/
theorem mem_separated_last {c : Char} {part last : Pattern} (hpart : ∀ piece ∈ part.language, c ∉ piece)
    (hlast : ∀ piece ∈ last.language, c ∉ piece) :
    text ∈ (seq (oneOrMore (seq part (just c))) last).language ↔
      ∃ pieces ending, text.splitOn c = pieces ++ [ending] ∧ pieces ≠ [] ∧
        (∀ piece ∈ pieces, piece ∈ part.language) ∧ ending ∈ last.language := by
  rw [mem_seq]
  constructor
  · rintro ⟨_, hfront, ending, hending, rfl⟩
    obtain ⟨parts, hne, rfl, hparts⟩ := mem_oneOrMore.mp hfront
    obtain ⟨pieces, rfl, hpieces⟩ := exists_pieces (f := (· ++ [c])) (r := (· ∈ part.language)) (by
      intro q hq
      obtain ⟨piece, hpiece, _, hc, rfl⟩ := mem_seq.mp (hparts q hq)
      exact ⟨piece, hpiece, by rw [mem_just.mp hc]⟩)
    refine ⟨pieces, ending, ?_, by simpa using hne, hpieces, hending⟩
    rw [← intercalate_concat, List.splitOn_intercalate c _ (by simp)]
    intro piece hmem
    rcases List.mem_append.mp hmem with hfront | hend
    · exact hpart piece (hpieces piece hfront)
    · exact hlast piece (List.mem_singleton.mp hend ▸ hending)
  · rintro ⟨pieces, ending, hsplit, hne, hpieces, hending⟩
    refine ⟨(pieces.map (· ++ [c])).flatten, mem_oneOrMore.mpr ⟨_, by simpa using hne, rfl, ?_⟩, ending, hending, ?_⟩
    · intro q hq
      obtain ⟨piece, hpiece, rfl⟩ := List.mem_map.mp hq
      exact mem_seq.mpr ⟨piece, hpieces piece hpiece, [c], mem_just.mpr rfl, rfl⟩
    · rw [← intercalate_concat, ← hsplit, List.intercalate_splitOn]

end FormSchema.Pattern
