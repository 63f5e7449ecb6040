import FormSchema.Date.Layout
import Mathlib.Data.List.TakeWhile

namespace FormSchema

theorem isDigit_iff {c : Char} : c.isDigit = true ↔ 48 ≤ c.toNat ∧ c.toNat ≤ 57 := Char.isDigit_iff_toNat

theorem isAlpha_iff {c : Char} :
    c.isAlpha = true ↔ (65 ≤ c.toNat ∧ c.toNat ≤ 90) ∨ (97 ≤ c.toNat ∧ c.toNat ≤ 122) := by
  have hupper : c.isUpper = true ↔ 65 ≤ c.toNat ∧ c.toNat ≤ 90 := decide_eq_true_iff
  have hlower : c.isLower = true ↔ 97 ≤ c.toNat ∧ c.toNat ≤ 122 :=
    (Bool.and_eq_true_iff ..).trans (and_congr decide_eq_true_iff decide_eq_true_iff)
  exact (Bool.or_eq_true_iff ..).trans (or_congr hupper hlower)

private theorem isAlpha_of_isAlpha_toLower {c : Char} (h : c.toLower.isAlpha = true) : c.isAlpha = true := by
  by_cases hupper : c.val ≥ 'A'.val ∧ c.val ≤ 'Z'.val
  · exact Bool.or_eq_true_iff.mpr (.inl (decide_eq_true hupper))
  · have hsame : c.toLower = c := dif_neg hupper
    rwa [hsame] at h

theorem not_isAlphanum_of_isBlank {c : Char} (h : isBlank c = true) : c.isDigit = false ∧ c.isAlpha = false := by
  rw [Bool.eq_false_iff, Bool.eq_false_iff, ne_eq, ne_eq, isDigit_iff, isAlpha_iff]
  simp only [isBlank, blankCodes, List.contains_iff_mem, List.mem_cons, List.not_mem_nil, or_false] at h
  omega

theorem not_isBlank_of_isDigit {c : Char} (h : c.isDigit = true) : isBlank c = false := by
  rw [Bool.eq_false_iff]
  intro hblank
  simp [(not_isAlphanum_of_isBlank hblank).1] at h

theorem skipBlanks_append_of_ne_nil {cs : List Char} (h : skipBlanks cs ≠ []) (rest : List Char) :
    skipBlanks (cs ++ rest) = skipBlanks cs ++ rest := by
  rw [skipBlanks, List.dropWhile_append, if_neg (by simpa [skipBlanks] using h), skipBlanks]

theorem skipBlanks_of_head {c : Char} (h : isBlank c = false) (rest : List Char) :
    skipBlanks (c :: rest) = c :: rest := by
  rw [skipBlanks, List.dropWhile_cons_of_neg (by simp [h])]

namespace DateText
variable {least most : Nat} {cs rest : List Char} {n : Nat}

/-- A reader that makes something of what another one reads, and leaves the same. -/
theorem exists_of_map_eq_some {α β : Type} {found : Option (α × List Char)} {f : α × List Char → β × List Char} {b : β}
    (hf : ∀ a left, (f (a, left)).2 = left) (h : found.map f = some (b, rest)) :
    ∃ a, found = some (a, rest) ∧ (f (a, rest)).1 = b := by
  obtain ⟨⟨a, left⟩, hfound, heq⟩ := Option.map_eq_some_iff.mp h
  obtain rfl : left = rest := by rw [← hf a left, heq]
  exact ⟨a, hfound, by rw [heq]⟩

def Stops (cs : List Char) : Prop := ∀ c ∈ cs.head?, c.isDigit = false

theorem stops_nil : Stops [] := by simp [Stops]

theorem stops_cons {c : Char} (h : c.isDigit = false) (cs : List Char) : Stops (c :: cs) := by
  simpa [Stops] using h

private theorem Stops.takeWhile_eq_nil (h : Stops cs) : cs.takeWhile Char.isDigit = [] := by
  cases cs with
  | nil => rfl
  | cons c cs => exact List.takeWhile_cons_of_neg (by simpa [Stops] using h)

theorem Stops.number?_eq_none (h : Stops cs) : number? (least + 1) most cs = none := by
  simp [number?, h.takeWhile_eq_nil]

private theorem Stops.takeWhile_append (h : Stops rest) (cs : List Char) :
    (cs ++ rest).takeWhile Char.isDigit = cs.takeWhile Char.isDigit := by
  rw [List.takeWhile_append]
  split
  · rename_i hall
    rw [h.takeWhile_eq_nil, List.append_nil, (List.takeWhile_prefix _).eq_of_length hall]
  · rfl

theorem Stops.number?_append (h : Stops rest) (cs : List Char) : number? least most (cs ++ rest) =
    (number? least most cs).map fun (n, left) => (n, left ++ rest) := by
  have hlength : ((cs.takeWhile Char.isDigit).take most).length ≤ cs.length :=
    Nat.le_trans (List.length_take_le' ..) (List.takeWhile_prefix _).length_le
  rw [number?, number?, h.takeWhile_append, List.drop_append_of_le_length hlength]
  split <;> rfl

private theorem number?_of_length_le (h : cs.length ≤ most) : number? least most cs = longNumber? least cs := by
  have hdigits : (cs.takeWhile Char.isDigit).length ≤ cs.length := (List.takeWhile_prefix _).length_le
  rw [longNumber?, number?, number?, List.take_of_length_le (Nat.le_trans hdigits h), List.take_of_length_le hdigits]

theorem Stops.longNumber?_append (h : Stops rest) (cs : List Char) : longNumber? least (cs ++ rest) =
    (longNumber? least cs).map fun (n, left) => (n, left ++ rest) := by
  rw [longNumber?, h.number?_append, number?_of_length_le (by simp)]

theorem exists_digits_of_number? (h : number? least most cs = some (n, rest)) :
    ∃ digits, cs = digits ++ rest ∧ (∀ c ∈ digits, c.isDigit = true) ∧ least ≤ digits.length ∧
      digits.length ≤ most ∧ n = digitsValue digits := by
  have hprefix : (cs.takeWhile Char.isDigit).take most <+: cs :=
    (List.take_prefix ..).trans (List.takeWhile_prefix _)
  rw [number?] at h
  split at h
  · cases h
  · rename_i hleast
    obtain ⟨rfl, rfl⟩ := Prod.mk.inj (Option.some.inj h)
    refine ⟨_, (List.prefix_iff_eq_append.mp hprefix).symm, ?_, Nat.not_lt.mp hleast, List.length_take_le .., rfl⟩
    intro c hc
    exact List.mem_takeWhile_imp (List.mem_of_mem_take hc)

/-- Digits up to where they end are read as a number. -/
theorem Stops.number?_digits (h : Stops rest) {digits : List Char} (hdigits : ∀ c ∈ digits, c.isDigit = true)
    (hleast : least ≤ digits.length) (hmost : digits.length ≤ most) :
    number? least most (digits ++ rest) = some (digitsValue digits, rest) := by
  have htake : digits.takeWhile Char.isDigit = digits := List.takeWhile_eq_self_iff.mpr hdigits
  rw [number?, h.takeWhile_append, htake, List.take_of_length_le hmost, if_neg (Nat.not_lt.mpr hleast),
    List.drop_left]

def Takes (p : Char → Prop) (cs rest : List Char) : Prop := ∃ read, cs = read ++ rest ∧ ∀ c ∈ read, p c

variable {p q : Char → Prop} {mid : List Char}

theorem Takes.refl (cs : List Char) : Takes p cs cs := ⟨[], rfl, by simp⟩

theorem Takes.trans (h : Takes p cs mid) (h' : Takes p mid rest) : Takes p cs rest := by
  obtain ⟨first, rfl, hfirst⟩ := h
  obtain ⟨second, rfl, hsecond⟩ := h'
  exact ⟨first ++ second, (List.append_assoc ..).symm, List.forall_mem_append.mpr ⟨hfirst, hsecond⟩⟩

theorem Takes.cons (h : Takes p cs rest) {c : Char} (hc : p c) : Takes p (c :: cs) rest := by
  obtain ⟨read, rfl, hread⟩ := h
  exact ⟨c :: read, rfl, List.forall_mem_cons.mpr ⟨hc, hread⟩⟩

theorem Takes.imp (h : Takes p cs rest) (himp : ∀ c, p c → q c) : Takes q cs rest := by
  obtain ⟨read, rfl, hread⟩ := h
  exact ⟨read, rfl, fun c hc => himp c (hread c hc)⟩

theorem Takes.mem_of_mem (h : Takes p cs rest) {c : Char} (hc : c ∈ rest) : c ∈ cs := by
  obtain ⟨read, rfl, -⟩ := h
  exact List.mem_append_right _ hc

theorem Takes.suffix (h : Takes p cs rest) : rest <:+ cs := by
  obtain ⟨read, rfl, -⟩ := h
  exact List.suffix_append ..

theorem takes_skipBlanks (cs : List Char) : Takes (isBlank · = true) cs (skipBlanks cs) :=
  ⟨cs.takeWhile isBlank, List.takeWhile_append_dropWhile.symm, fun _ hc => List.mem_takeWhile_imp hc⟩

theorem takes_of_number? (h : number? least most cs = some (n, rest)) : Takes (·.isDigit = true) cs rest := by
  obtain ⟨digits, rfl, hdigits, -⟩ := exists_digits_of_number? h
  exact ⟨digits, rfl, hdigits⟩

theorem char?_eq_some_iff {c : Char} : char? c cs = some rest ↔ cs = c :: rest := by
  cases cs with
  | nil => simp [char?]
  | cons d cs => simp [char?, eq_comm]

theorem takes_of_word? {word : List Char} (h : word? word cs = some rest) : Takes (fun _ => True) cs rest := by
  rw [word?] at h
  split at h
  · obtain rfl := Option.some.inj h
    exact ⟨cs.take word.length, (List.take_append_drop ..).symm, fun _ _ => trivial⟩
  · cases h

/-- A letter of a word is found as a letter. -/
theorem exists_letter_of_word? {word : List Char} (h : word? word cs = some rest)
    (hword : word.any Char.isAlpha = true) : ∃ c ∈ cs, c.isAlpha = true := by
  rw [word?] at h
  split at h
  · rename_i heq
    obtain ⟨c, hc, halpha⟩ := List.any_eq_true.mp hword
    rw [← heq] at hc
    obtain ⟨d, hd, rfl⟩ := List.mem_map.mp hc
    exact ⟨d, List.mem_of_mem_take hd, isAlpha_of_isAlpha_toLower halpha⟩
  · cases h

private theorem exists_word_of_shortName? {names : List String} {i : Nat} (h : shortName? names cs = some (i, rest)) :
    ∃ name ∈ names, word? (name.toList.take 3) cs = some rest := by
  obtain ⟨⟨name, j⟩, hmem, hname⟩ := List.exists_of_findSome?_eq_some h
  obtain ⟨left, hword, heq⟩ := Option.map_eq_some_iff.mp hname
  exact ⟨name, List.fst_mem_of_mem_zipIdx hmem, (Prod.mk.inj heq).2 ▸ hword⟩

theorem takes_of_shortName? {names : List String} {i : Nat} (h : shortName? names cs = some (i, rest)) :
    Takes (fun _ => True) cs rest := by
  obtain ⟨name, -, hword⟩ := exists_word_of_shortName? h
  exact takes_of_word? hword

/-- A month is named by letters. -/
theorem takes_of_shortMonth? (h : shortMonth? cs = some (n, rest)) :
    Takes (fun _ => True) cs rest ∧ ∃ c ∈ cs, c.isAlpha = true := by
  obtain ⟨i, hname, -⟩ := exists_of_map_eq_some (fun _ _ => rfl) h
  obtain ⟨name, hmem, hword⟩ := exists_word_of_shortName? hname
  have hletters : ∀ name ∈ monthNames, (name.toList.take 3).any Char.isAlpha = true := by decide
  exact ⟨takes_of_word? hword, exists_letter_of_word? hword (hletters name hmem)⟩

theorem takes_of_month? (h : month? cs = some (n, rest)) :
    Takes (fun _ => True) cs rest ∧ ∃ c ∈ cs, c.isAlpha = true := by
  obtain ⟨⟨m, left⟩, hmonth, heq⟩ := Option.map_eq_some_iff.mp h
  obtain ⟨-, hending⟩ := Prod.mk.inj heq
  obtain ⟨hleft, hletter⟩ := takes_of_shortMonth? hmonth
  refine ⟨?_, hletter⟩
  cases hword : word? (((monthNames[m - 1]?.getD "").toList).drop 3) left with
  | none => rwa [← hending, hword]
  | some after =>
    rw [← hending, hword]
    exact hleft.trans (takes_of_word? hword)

theorem takes_of_fraction? (h : fraction? cs = some (n, rest)) :
    Takes (fun c => c.isDigit = true ∨ c = '.') cs rest := by
  unfold fraction? at h
  split at h
  · rename_i digits
    obtain ⟨⟨value, left⟩, hnumber, heq⟩ := Option.bind_eq_some_iff.mp h
    obtain ⟨-, rfl⟩ := Prod.mk.inj (Option.some.inj heq)
    have hleft : Takes (·.isDigit = true) left (left.dropWhile Char.isDigit) :=
      ⟨left.takeWhile Char.isDigit, List.takeWhile_append_dropWhile.symm, fun _ hc => List.mem_takeWhile_imp hc⟩
    exact (((takes_of_number? hnumber).trans hleft).imp fun _ hc => .inl hc).cons (.inr rfl)
  · obtain ⟨-, rfl⟩ := Prod.mk.inj (Option.some.inj h)
    exact .refl cs

end DateText
end FormSchema
