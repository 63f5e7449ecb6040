import FormSchema.Proofs.Date.Scan
import Mathlib.Data.List.DropRight

/-!
What a text must hold for a layout to read it, and what a layout reads of a date that a clock follows. A date
of numbers is read in front of a clock as it is read alone: no number of it reaches into the clock, and none
of the clock is taken for the date.
-/
namespace FormSchema.DateText
variable {cs rest : List Char} {r r' : Reading} {n low high : Nat}

/-- What numbers are written with: digits, blanks in front of them, and a sign. -/
def IsNumeral (c : Char) : Prop := c.isDigit = true ∨ isBlank c = true ∨ c = '+' ∨ c = '-'

theorem bounded?_eq_some_iff : bounded? low high cs = some (n, rest) ↔
    number? 1 2 (skipBlanks cs) = some (n, rest) ∧ low ≤ n ∧ n ≤ high := by
  rw [bounded?]
  cases hnumber : number? 1 2 (skipBlanks cs) with
  | none => simp
  | some found =>
    obtain ⟨m, left⟩ := found
    by_cases hbounds : low ≤ m ∧ m ≤ high
    · simp [hbounds]
      grind
    · simp [hbounds]
      grind

private theorem takes_of_bounded? (h : bounded? low high cs = some (n, rest)) : Takes IsNumeral cs rest := by
  obtain ⟨hnumber, -⟩ := bounded?_eq_some_iff.mp h
  have hblanks := (takes_skipBlanks cs).imp fun _ hc => (.inr (.inl hc) : IsNumeral _)
  exact hblanks.trans ((takes_of_number? hnumber).imp fun _ hc => .inl hc)

private theorem takes_of_year? {y : Int} (h : year? cs = some (y, rest)) : Takes IsNumeral cs rest := by
  have hblanks := (takes_skipBlanks cs).imp fun _ hc => (.inr (.inl hc) : IsNumeral _)
  unfold year? at h
  refine hblanks.trans ?_
  split at h
  · rename_i heq
    obtain ⟨m, hnumber, -⟩ := exists_of_map_eq_some (fun _ _ => rfl) h
    rw [heq]
    exact ((takes_of_number? hnumber).imp fun _ hc => (.inl hc : IsNumeral _)).cons (.inr (.inr (.inr rfl)))
  · rename_i heq
    obtain ⟨m, hnumber, -⟩ := exists_of_map_eq_some (fun _ _ => rfl) h
    rw [heq]
    exact ((takes_of_number? hnumber).imp fun _ hc => (.inl hc : IsNumeral _)).cons (.inr (.inr (.inl rfl)))
  · obtain ⟨m, hnumber, -⟩ := exists_of_map_eq_some (fun _ _ => rfl) h
    exact (takes_of_number? hnumber).imp fun c hc => .inl hc

/-- The characters that a part can take from a text. -/
def Part.Allows : Part → Char → Prop
  | .char d => (· = d)
  | .monthName | .half => fun _ => True
  | .blanks => (isBlank · = true)
  | .fraction => fun c => c.isDigit = true ∨ c = '.'
  | _ => IsNumeral

private theorem Part.takes_of_read? {part : Part} (h : part.read? r cs = some (r', rest)) :
    Takes part.Allows cs rest := by
  cases part with
  | blanks =>
    obtain ⟨-, rfl⟩ := Prod.mk.inj (Option.some.inj h)
    exact takes_skipBlanks cs
  | half =>
    rw [read?] at h
    split at h
    · rename_i hword
      obtain ⟨-, rfl⟩ := Prod.mk.inj (Option.some.inj h)
      exact takes_of_word? hword
    · obtain ⟨left, hword, hleft⟩ := Option.map_eq_some_iff.mp h
      obtain ⟨-, rfl⟩ := Prod.mk.inj hleft
      exact takes_of_word? hword
  | char d =>
    obtain ⟨left, hchar, hleft⟩ := Option.map_eq_some_iff.mp h
    obtain ⟨-, rfl⟩ := Prod.mk.inj hleft
    rw [char?_eq_some_iff.mp hchar]
    exact (Takes.refl left).cons rfl
  | year =>
    obtain ⟨y, hnumber, -⟩ := exists_of_map_eq_some (fun _ _ => rfl) h
    exact takes_of_year? hnumber
  | monthName =>
    obtain ⟨n, hname, -⟩ := exists_of_map_eq_some (fun _ _ => rfl) h
    exact (takes_of_month? hname).1
  | fraction =>
    obtain ⟨n, hfraction, -⟩ := exists_of_map_eq_some (fun _ _ => rfl) h
    exact takes_of_fraction? hfraction
  | shortYear | month | day | hour | halfHour | minute | second =>
    obtain ⟨n, hnumber, -⟩ := exists_of_map_eq_some (fun _ _ => rfl) h
    exact takes_of_bounded? hnumber

/-- The half of the day and a named month are written with letters. -/
private theorem Part.exists_letter_of_read? {part : Part} (hpart : part = .half ∨ part = .monthName)
    (h : part.read? r cs = some (r', rest)) : ∃ c ∈ cs, c.isAlpha = true := by
  rcases hpart with rfl | rfl
  · rw [read?] at h
    split at h
    · rename_i hword
      exact exists_letter_of_word? hword (by decide)
    · obtain ⟨left, hword, -⟩ := Option.map_eq_some_iff.mp h
      exact exists_letter_of_word? hword (by decide)
  · obtain ⟨n, hname, -⟩ := exists_of_map_eq_some (fun _ _ => rfl) h
    exact (takes_of_month? hname).2

namespace Layout
variable {layout : Layout} {part : Part}

theorem read?_cons (part : Part) (parts : Layout) (r : Reading) (cs : List Char) :
    Layout.read? (part :: parts) r cs = (part.read? r cs).bind fun found => Layout.read? parts found.1 found.2 := by
  rw [Layout.read?]
  cases part.read? r cs <;> rfl

/-- Every character of a text that is read is taken by some part. -/
private theorem exists_allows (h : layout.read? r cs = some r') : ∀ c ∈ cs, ∃ part ∈ layout, part.Allows c := by
  induction layout generalizing r cs with
  | nil =>
    rw [Layout.read?] at h
    split at h
    · rename_i hempty
      simp [List.isEmpty_iff.mp hempty]
    · cases h
  | cons part parts ih =>
    rw [read?_cons] at h
    obtain ⟨⟨r₁, left⟩, hpart, hparts⟩ := Option.bind_eq_some_iff.mp h
    obtain ⟨read, rfl, hread⟩ := Part.takes_of_read? hpart
    intro c hc
    rcases List.mem_append.mp hc with hc | hc
    · exact ⟨part, List.mem_cons_self, hread c hc⟩
    · obtain ⟨other, hother, hallows⟩ := ih hparts c hc
      exact ⟨other, List.mem_cons_of_mem _ hother, hallows⟩

/-- Every part is read, at some place of the text. -/
private theorem exists_read_of_mem (hpart : part ∈ layout) (h : layout.read? r cs = some r') :
    ∃ r₁ place r₂ left, (∀ c ∈ place, c ∈ cs) ∧ part.read? r₁ place = some (r₂, left) := by
  induction layout generalizing r cs with
  | nil => cases hpart
  | cons first parts ih =>
    rw [read?_cons] at h
    obtain ⟨⟨r₁, left⟩, hfirst, hparts⟩ := Option.bind_eq_some_iff.mp h
    rcases List.mem_cons.mp hpart with rfl | hpart
    · exact ⟨r, cs, r₁, left, fun _ hc => hc, hfirst⟩
    · obtain ⟨r₂, place, r₃, after, hplace, hread⟩ := ih hpart hparts
      exact ⟨r₂, place, r₃, after, fun c hc => (Part.takes_of_read? hfirst).mem_of_mem (hplace c hc), hread⟩

private theorem mem_of_char_mem {c : Char} (hc : Part.char c ∈ layout) (h : layout.read? r cs = some r') : c ∈ cs := by
  obtain ⟨_, place, _, left, hplace, hread⟩ := exists_read_of_mem hc h
  obtain ⟨_, hchar, -⟩ := Option.map_eq_some_iff.mp hread
  rw [char?_eq_some_iff.mp hchar] at hplace
  exact hplace c List.mem_cons_self

private theorem exists_letter_of_mem (hpart : part = .half ∨ part = .monthName) (hmem : part ∈ layout)
    (h : layout.read? r cs = some r') : ∃ c ∈ cs, c.isAlpha = true := by
  obtain ⟨_, place, _, _, hplace, hread⟩ := exists_read_of_mem hmem h
  obtain ⟨c, hc, halpha⟩ := Part.exists_letter_of_read? hpart hread
  exact ⟨c, hplace c hc, halpha⟩

end Layout

/-! A text in front of a clock. -/

private theorem bounded?_append (hcs : skipBlanks cs ≠ []) (h : Stops rest) : bounded? low high (cs ++ rest) =
    (bounded? low high cs).map fun (n, left) => (n, left ++ rest) := by
  rw [bounded?, bounded?, skipBlanks_append_of_ne_nil hcs, h.number?_append]
  cases number? 1 2 (skipBlanks cs) with
  | none => rfl
  | some found =>
    simp only [Option.map_some, Option.bind_eq_bind, Option.bind_some]
    split <;> rfl

private theorem unsigned_of_isDigit {c : Char} (h : c.isDigit = true) : c ≠ '-' ∧ c ≠ '+' := by
  constructor <;> rintro rfl <;> revert h <;> decide

private theorem year?_of_unsigned (h : ∀ c ∈ (skipBlanks cs).head?, c ≠ '-' ∧ c ≠ '+') :
    year? cs = (number? 1 4 (skipBlanks cs)).map fun (n, left) => ((n : Int), left) := by
  unfold year?
  split
  · rename_i heq
    simp [heq] at h
  · rename_i heq
    simp [heq] at h
  · rfl

private theorem year?_append (hcs : skipBlanks cs ≠ []) (h : Stops rest) : year? (cs ++ rest) =
    (year? cs).map fun (y, left) => (y, left ++ rest) := by
  obtain ⟨c, after, hskip⟩ := List.exists_cons_of_ne_nil hcs
  have happend : skipBlanks (cs ++ rest) = c :: (after ++ rest) := by
    rw [skipBlanks_append_of_ne_nil hcs, hskip, List.cons_append]
  by_cases hsign : c = '-' ∨ c = '+'
  · unfold year?
    rw [happend, hskip]
    rcases hsign with rfl | rfl <;> simp only [h.longNumber?_append, Option.map_map] <;> rfl
  · have hunsigned : c ≠ '-' ∧ c ≠ '+' := not_or.mp hsign
    rw [year?_of_unsigned (by simpa [happend] using hunsigned), year?_of_unsigned (by simpa [hskip] using hunsigned),
      happend, hskip, ← List.cons_append, h.number?_append, Option.map_map, Option.map_map]
    rfl

/-- Two digits or fewer are the same year as they are a number within bounds. -/
theorem year?_of_bounded? (h : bounded? low high cs = some (n, rest)) (hrest : Stops rest) :
    year? cs = some ((n : Int), rest) := by
  obtain ⟨hnumber, -⟩ := bounded?_eq_some_iff.mp h
  obtain ⟨digits, hskip, hdigits, hleast, hmost, rfl⟩ := exists_digits_of_number? hnumber
  rw [year?_of_unsigned, hskip, hrest.number?_digits hdigits hleast (by omega)]
  · rfl
  · obtain ⟨c, after, rfl⟩ := List.exists_cons_of_length_pos hleast
    simpa [hskip] using unsigned_of_isDigit (hdigits c List.mem_cons_self)

def EndsFull (cs : List Char) : Prop := ∀ c ∈ cs.getLast?, isBlank c = false

private theorem EndsFull.of_suffix (h : EndsFull cs) (hsuffix : rest <:+ cs) : EndsFull rest := by
  obtain ⟨front, rfl⟩ := hsuffix
  intro c hc
  exact h c (by simp [List.getLast?_append, Option.mem_def.mp hc])

private theorem EndsFull.skipBlanks_ne_nil (h : EndsFull cs) (hne : cs ≠ []) : skipBlanks cs ≠ [] := by
  intro hskip
  have hblank := List.dropWhile_eq_nil_iff.mp hskip _ (List.getLast_mem hne)
  rw [h _ (List.getLast_mem_getLast? hne)] at hblank
  cases hblank

namespace Part
variable {part : Part} {a b : Char} {more : List Char}

/-- Whether dates of numbers have this part. What stands between the numbers begins no clock. -/
def isNumeric : Part → Bool
  | .year | .shortYear | .month | .day => true
  | .char c => !isBlank c && c != ':'
  | _ => false

theorem read?_append (hpart : part.isNumeric = true) (hcs : skipBlanks cs ≠ []) (h : Stops rest) (r : Reading) :
    part.read? r (cs ++ rest) = (part.read? r cs).map fun (r', left) => (r', left ++ rest) := by
  cases part with
  | year => simp [read?, year?_append hcs h, Function.comp_def]
  | shortYear | month | day => simp [read?, bounded?_append hcs h, Function.comp_def]
  | char c =>
    cases cs with
    | nil => exact absurd rfl hcs
    | cons d cs => by_cases hd : c = d <;> simp [read?, char?, hd]
  | _ => cases hpart

private theorem read?_nil (hpart : part.isNumeric = true) (r : Reading) : part.read? r [] = none := by
  cases part with
  | _ => first | rfl | cases hpart

private theorem read?_colon (hpart : part.isNumeric = true) (r : Reading) (more : List Char) :
    part.read? r (':' :: more) = none := by
  have hskip : skipBlanks (':' :: more) = ':' :: more := skipBlanks_of_head (by decide) more
  have hstops : Stops (':' :: more) := stops_cons (by decide) more
  cases part with
  | year => simp [read?, year?_of_unsigned, hskip, hstops.number?_eq_none]
  | shortYear | month | day => simp [read?, bounded?, hskip, hstops.number?_eq_none]
  | char c =>
    obtain ⟨-, hc⟩ : isBlank c = false ∧ c ≠ ':' := by simpa [isNumeric] using hpart
    simp [read?, char?, hc]
  | _ => cases hpart

/-- Where a date takes a number from the clock, it leaves the colon after the hour. -/
private theorem rest_of_read?_clock (hpart : part.isNumeric = true) (ha : a.isDigit = true) (hb : b.isDigit = true)
    (h : part.read? r (' ' :: a :: b :: ':' :: more) = some (r', rest)) : rest = ':' :: more := by
  have hstops : Stops (':' :: more) := stops_cons (by decide) more
  have hdigits : ∀ c ∈ [a, b], c.isDigit = true := by simp [ha, hb]
  have hnumber (most : Nat) (hmost : 2 ≤ most) :
      number? 1 most (a :: b :: ':' :: more) = some (digitsValue [a, b], ':' :: more) :=
    hstops.number?_digits hdigits (by simp) hmost
  have hskip : skipBlanks (' ' :: a :: b :: ':' :: more) = a :: b :: ':' :: more :=
    skipBlanks_of_head (not_isBlank_of_isDigit ha) _
  have hbounded {low high n : Nat} (hread : bounded? low high (' ' :: a :: b :: ':' :: more) = some (n, rest)) :
      rest = ':' :: more := by
    have hread := (bounded?_eq_some_iff.mp hread).1
    rw [hskip, hnumber 2 le_rfl] at hread
    exact (Prod.mk.inj (Option.some.inj hread)).2.symm
  cases part with
  | year =>
    obtain ⟨y, hread, -⟩ := exists_of_map_eq_some (fun _ _ => rfl) h
    rw [year?_of_unsigned (by simpa [hskip] using unsigned_of_isDigit ha), hskip, hnumber 4 (by decide)] at hread
    exact (Prod.mk.inj (Option.some.inj hread)).2.symm
  | shortYear | month | day =>
    obtain ⟨n, hread, -⟩ := exists_of_map_eq_some (fun _ _ => rfl) h
    exact hbounded hread
  | char c =>
    obtain ⟨left, hread, heq⟩ := Option.map_eq_some_iff.mp h
    obtain ⟨rfl, -⟩ := List.cons.inj (char?_eq_some_iff.mp hread)
    exact absurd hpart (by decide)
  | _ => cases hpart

end Part

def afterBlanks (clock : Layout) : Layout := .blanks :: .hour :: .char ':' :: clock

section Clock
variable {layout clock : Layout} {a b : Char} {more : List Char}

private theorem Layout.read?_afterBlanks_colon (hlayout : ∀ part ∈ layout, part.isNumeric = true)
    (clock : Layout) (r : Reading)
    (more : List Char) : (layout ++ afterBlanks clock).read? r (':' :: more) = none := by
  have hstops : Stops (':' :: more) := stops_cons (by decide) more
  have hskip : skipBlanks (':' :: more) = ':' :: more := skipBlanks_of_head (by decide) more
  cases layout with
  | nil => simp [afterBlanks, Layout.read?_cons, Part.read?, bounded?, hskip, hstops.number?_eq_none]
  | cons part parts =>
    rw [List.cons_append, Layout.read?_cons, Part.read?_colon (hlayout part List.mem_cons_self)]
    rfl

/-- What a date leaves of its text stands between it and the clock, and then the colon is not found. -/
private theorem Layout.read?_afterBlanks_of_ne_nil (hne : skipBlanks cs ≠ []) (hcolon : ':' ∉ cs) (hrest : Stops rest)
    (hhead : ':' ∉ rest.head?) (clock : Layout) (r : Reading) :
    (afterBlanks clock).read? r (cs ++ rest) = none := by
  have hskip : skipBlanks (skipBlanks cs) ≠ [] := by
    rwa [skipBlanks, skipBlanks, List.dropWhile_idempotent]
  simp only [afterBlanks, Layout.read?_cons, Part.read?, Option.bind_some, skipBlanks_append_of_ne_nil hne,
    bounded?_append hskip hrest, Option.bind_map]
  cases hhour : bounded? 0 23 (skipBlanks cs) with
  | none => rfl
  | some found =>
    obtain ⟨n, left⟩ := found
    have hleft : ':' ∉ left := fun hmem =>
      hcolon ((takes_skipBlanks cs).mem_of_mem ((takes_of_bounded? hhour).mem_of_mem hmem))
    have hchar : char? ':' (left ++ rest) = none := by
      rw [Option.eq_none_iff_forall_ne_some]
      intro after hafter
      have hfirst : ':' ∈ (left ++ rest).head? := by simp [char?_eq_some_iff.mp hafter]
      cases left with
      | nil => exact hhead hfirst
      | cons c left => exact hleft (by simp_all)
    simp [hchar]

/-- A date in front of a clock is read as it is read alone. -/
theorem Layout.read?_append_afterBlanks (hlayout : ∀ part ∈ layout, part.isNumeric = true) (hcolon : ':' ∉ cs) (hcs : EndsFull cs)
    (ha : a.isDigit = true) (hb : b.isDigit = true) (clock : Layout) (r : Reading) :
    (layout ++ afterBlanks clock).read? r (cs ++ ' ' :: a :: b :: ':' :: more) =
      (layout.read? r cs).bind fun r' => (afterBlanks clock).read? r' (' ' :: a :: b :: ':' :: more) := by
  have hstops : Stops (' ' :: a :: b :: ':' :: more) := stops_cons (by decide) _
  -- A number of the layout either starts within the date, and then ends before the clock, or it takes the hour; what
  -- the hour leaves begins with a colon, and no rest of the layout reads that.
  induction layout generalizing r cs with
  | nil =>
    by_cases hne : cs = []
    · subst hne
      rfl
    · rw [List.nil_append, Layout.read?_afterBlanks_of_ne_nil (hcs.skipBlanks_ne_nil hne) hcolon hstops (by simp),
        Layout.read?, if_neg (by simpa using hne)]
      rfl
  | cons part parts ih =>
    have hpart := hlayout part List.mem_cons_self
    rw [List.cons_append, Layout.read?_cons, Layout.read?_cons]
    by_cases hne : cs = []
    · subst hne
      rw [Part.read?_nil hpart, List.nil_append]
      cases hread : part.read? r (' ' :: a :: b :: ':' :: more) with
      | none => rfl
      | some found =>
        obtain ⟨r', rest⟩ := found
        rw [Part.rest_of_read?_clock hpart ha hb hread]
        exact Layout.read?_afterBlanks_colon (fun other hother => hlayout other (List.mem_cons_of_mem _ hother)) ..
    · rw [Part.read?_append hpart (hcs.skipBlanks_ne_nil hne) hstops]
      cases hread : part.read? r cs with
      | none => rfl
      | some found =>
        obtain ⟨r', left⟩ := found
        have hleft := Part.takes_of_read? hread
        exact ih (fun other hother => hlayout other (List.mem_cons_of_mem _ hother))
          (fun hmem => hcolon (hleft.mem_of_mem hmem)) (hcs.of_suffix hleft.suffix) r'

end Clock

namespace Layout
variable {layout : Layout} {part : Part} {c : Char}

theorem timestamp?_eq_none_of_char (hchar : .char c ∈ layout) (hcs : c ∉ cs) : layout.timestamp? cs = none := by
  rw [timestamp?, Option.bind_eq_none_iff]
  intro r hread
  exact absurd (mem_of_char_mem hchar hread) hcs

theorem timestamp?_eq_none_of_letters (hpart : part = .half ∨ part = .monthName) (hmem : part ∈ layout)
    (hletters : ∀ c ∈ cs, c.isAlpha = false) : layout.timestamp? cs = none := by
  rw [timestamp?, Option.bind_eq_none_iff]
  intro r hread
  obtain ⟨c, hc, halpha⟩ := exists_letter_of_mem hpart hmem hread
  rw [hletters c hc] at halpha
  cases halpha

def day? (layout : Layout) (cs : List Char) : Option Date := (layout.timestamp? cs).map Timestamp.date

theorem day?_eq (layout : Layout) (cs : List Char) :
    layout.day? cs = (layout.read? {} cs).bind fun r => Date.of? r.year r.month r.day := by
  rw [day?, timestamp?]
  cases layout.read? {} cs with
  | none => rfl
  | some r => simp [Reading.timestamp?, Function.comp_def]

/-- What is no part of a number stands in the layout itself. -/
theorem char_mem_of_mem (hlayout : ∀ part ∈ layout, part.isNumeric = true) (h : layout.read? r cs = some r')
    (hc : c ∈ cs) (hnumeral : ¬ IsNumeral c) : .char c ∈ layout := by
  obtain ⟨part, hpart, hallows⟩ := exists_allows h c hc
  have hnumeric := hlayout part hpart
  cases part with
  | char d =>
    obtain rfl : c = d := hallows
    exact hpart
  | year | shortYear | month | day => exact absurd hallows hnumeral
  | _ => cases hnumeric

theorem exists_read_of_day? {d : Date} (h : layout.day? cs = some d) :
    ∃ r, layout.read? {} cs = some r ∧ Date.of? r.year r.month r.day = some d :=
  Option.bind_eq_some_iff.mp (day?_eq layout cs ▸ h)

end Layout

end FormSchema.DateText
