import FormSchema.Date.Internet
import FormSchema.Proofs.Date.Scan

namespace FormSchema.DateText
variable {cs rest : List Char} {t : Timestamp}

private theorem suffix_of_char? {c : Char} (h : char? c cs = some rest) : rest <:+ cs := by
  rw [char?_eq_some_iff.mp h]
  exact List.suffix_cons ..

private theorem suffix_of_number? {least most n : Nat} (h : number? least most cs = some (n, rest)) : rest <:+ cs :=
  (takes_of_number? h).suffix

private theorem suffix_of_blanks? (h : blanks? cs = some rest) : rest <:+ cs := by
  rw [blanks?] at h
  split at h
  · obtain rfl := Option.some.inj h
    exact (takes_skipBlanks cs).suffix
  · cases h

/-- Two digits and a colon. -/
private theorem suffix_of_pair?_of_colon {mid : List Char} {n : Nat} (hpair : pair? cs = some (n, mid))
    (hcolon : char? ':' mid = some rest) : rest <:+ cs ∧ rest.count ':' < cs.count ':' := by
  have hmid : mid <:+ cs := suffix_of_number? hpair
  have hcount : mid.count ':' = rest.count ':' + 1 := by
    rw [char?_eq_some_iff.mp hcolon, List.count_cons_self]
  exact ⟨(suffix_of_char? hcolon).trans hmid, Nat.lt_of_lt_of_le (by omega) (hmid.sublist.count_le ':')⟩

private theorem count_colon_of_offset? {minus : List Char} {found : Int × List Char}
    (h : offset? minus (char? ':') cs = some found) : 0 < cs.count ':' := by
  cases cs with
  | nil => cases h
  | cons sign cs =>
    refine Nat.lt_of_lt_of_le ?_ ((List.sublist_cons_self sign cs).count_le ':')
    simp only [offset?, Option.bind_eq_bind] at h
    split at h
    · simp only [Option.bind_eq_some_iff] at h
      obtain ⟨_, -, _, hhours, _, hcolon, -⟩ := h
      exact Nat.zero_lt_of_lt (suffix_of_pair?_of_colon hhours hcolon).2
    · split at h
      · simp only [Option.bind_eq_some_iff] at h
        obtain ⟨_, -, _, hhours, _, hcolon, -⟩ := h
        exact Nat.zero_lt_of_lt (suffix_of_pair?_of_colon hhours hcolon).2
      · cases h

/-- An internet timestamp has the two colons of its clock, and that of its offset or the letter that stands for it. -/
theorem colons_or_letter_of_rfc3339? (h : rfc3339? cs = some t) : 3 ≤ cs.count ':' ∨ ∃ c ∈ cs, c.isAlpha = true := by
  obtain ⟨⟨_, c₁⟩, hyear, h⟩ := Option.bind_eq_some_iff.mp h
  obtain ⟨c₂, hhyphen, h⟩ := Option.bind_eq_some_iff.mp h
  obtain ⟨⟨_, c₃⟩, hmonth, h⟩ := Option.bind_eq_some_iff.mp h
  obtain ⟨c₄, hhyphen', h⟩ := Option.bind_eq_some_iff.mp h
  obtain ⟨⟨_, c₅⟩, hday, h⟩ := Option.bind_eq_some_iff.mp h
  dsimp -zeta only at h
  extract_lets afterMark? at h
  have hdate : c₅ <:+ cs := (suffix_of_number? hday).trans <| (suffix_of_char? hhyphen').trans <|
    (suffix_of_number? hmonth).trans <| (suffix_of_char? hhyphen).trans (suffix_of_number? hyear)
  -- All three marks between date and time go on with the same reader.
  have hclock {clock : List Char} (hsuffix : clock <:+ c₅) (h : afterMark? clock = some t) :
      3 ≤ cs.count ':' ∨ ∃ c ∈ cs, c.isAlpha = true := by
    obtain ⟨⟨_, c₆⟩, hhour, h⟩ := Option.bind_eq_some_iff.mp h
    obtain ⟨c₇, hcolon, h⟩ := Option.bind_eq_some_iff.mp h
    obtain ⟨⟨_, c₈⟩, hminute, h⟩ := Option.bind_eq_some_iff.mp h
    obtain ⟨c₉, hcolon', h⟩ := Option.bind_eq_some_iff.mp h
    obtain ⟨⟨_, c₁₀⟩, hsecond, h⟩ := Option.bind_eq_some_iff.mp h
    obtain ⟨⟨_, zone⟩, hfraction, h⟩ := Option.bind_eq_some_iff.mp h
    obtain ⟨hminutes, hless⟩ := suffix_of_pair?_of_colon hhour hcolon
    obtain ⟨hseconds, hless'⟩ := suffix_of_pair?_of_colon hminute hcolon'
    have hzone : zone <:+ c₉ := (takes_of_fraction? hfraction).suffix.trans (suffix_of_number? hsecond)
    have hletter {c : Char} (hc : c ∈ zone) (halpha : c.isAlpha = true) : ∃ c ∈ cs, c.isAlpha = true :=
      ⟨c, (hzone.trans <| hseconds.trans <| hminutes.trans <| hsuffix.trans hdate).subset hc, halpha⟩
    dsimp -zeta only at h
    extract_lets afterZone? at h
    split at h
    · exact .inr (hletter List.mem_cons_self (by decide))
    · exact .inr (hletter List.mem_cons_self (by decide))
    · obtain ⟨_, hoffset, -⟩ := Option.bind_eq_some_iff.mp h
      have := count_colon_of_offset? hoffset
      have := hzone.sublist.count_le ':'
      have := (hsuffix.trans hdate).sublist.count_le ':'
      left
      omega
  split at h
  · exact hclock (List.suffix_cons ..) h
  · exact hclock (List.suffix_cons ..) h
  · exact hclock (List.suffix_cons ..) h
  · cases h

/-- The month of a mail timestamp is a name. -/
theorem exists_letter_of_rfc2822? (h : rfc2822? cs = some t) : ∃ c ∈ cs, c.isAlpha = true := by
  unfold rfc2822? at h
  extract_lets text afterWeekday? at h
  have htext : text <:+ cs := (takes_skipBlanks cs).suffix
  have hmonth (weekday : Option Nat) {c₁ : List Char} (hsuffix : c₁ <:+ cs) (h : afterWeekday? (weekday, c₁) = some t) :
      ∃ c ∈ cs, c.isAlpha = true := by
    obtain ⟨⟨_, c₂⟩, hday, h⟩ := Option.bind_eq_some_iff.mp h
    obtain ⟨c₃, hblanks, h⟩ := Option.bind_eq_some_iff.mp h
    obtain ⟨⟨_, c₄⟩, hname, -⟩ := Option.bind_eq_some_iff.mp h
    obtain ⟨c, hc, halpha⟩ := (takes_of_shortMonth? hname).2
    have hplace : c₃ <:+ cs := (suffix_of_blanks? hblanks).trans <| (suffix_of_number? hday).trans <|
      (takes_skipBlanks c₁).suffix.trans hsuffix
    exact ⟨c, hplace.subset hc, halpha⟩
  split at h
  · rename_i hweekday
    obtain ⟨found, hcomma, h⟩ := Option.bind_eq_some_iff.mp h
    obtain ⟨left, hchar, rfl⟩ := Option.map_eq_some_iff.mp hcomma
    exact hmonth _ ((suffix_of_char? hchar).trans <| (takes_of_shortName? hweekday).suffix.trans htext) h
  · exact hmonth none htext h

end FormSchema.DateText
